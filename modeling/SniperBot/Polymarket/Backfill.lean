import SniperBot.Polymarket.Settlement

/-!
# Backfilling acceptances whose settlement is open

An acceptance that owes settlement facts waits in a registry. The backfill pass waits for its
trades, the reconciliation pass and an operator ask once; each judges what the venue answers,
and the passes drop an acceptance that is settled or gone.
-/

namespace SniperBot.Polymarket

open Execution (trim isBlank isBlank_trim)
open Lib.Runs

inductive AcceptanceStatus where
  | live
  | matched
  | delayed
  | unmatched
  | other (raw : String)
  deriving DecidableEq

inductive CommitState where
  | resting
  | matchedAwaitingSettlement
  | settled
  | pendingMatch
  | rejected
  deriving DecidableEq

namespace CommitState

def asStr : CommitState → String
  | resting => "resting"
  | matchedAwaitingSettlement => "matched_awaiting_settlement"
  | settled => "settled"
  | pendingMatch => "pending_match"
  | rejected => "rejected"

def requiresBackfill (s : CommitState) : Bool := s = matchedAwaitingSettlement ∨ s = pendingMatch

end CommitState

structure AsyncOrderAcceptance where
  orderId : Option String
  status : AcceptanceStatus
  success : Option Bool
  tradeIds : List String
  transactionsHashes : List String

namespace AsyncOrderAcceptance

def isAccepted (a : AsyncOrderAcceptance) : Bool := a.success ≠ some false ∧ a.status ≠ .unmatched

def commitState (a : AsyncOrderAcceptance) : CommitState :=
  if a.isAccepted = false then .rejected
  else match a.status with
    | .live => .resting
    | .delayed => .pendingMatch
    | .matched =>
      if a.transactionsHashes.isEmpty then .matchedAwaitingSettlement else .settled
    | .unmatched => .rejected
    | .other _ => .pendingMatch

end AsyncOrderAcceptance

structure PendingAcceptance where
  orderId : String
  tradeIds : List String
  transactionsHashes : List String
  commitState : CommitState
  submittedAt : Int
  staleAfter : Int
  deriving DecidableEq

namespace PendingAcceptance

def isStale (p : PendingAcceptance) (now : Int) : Bool := p.staleAfter ≤ now - p.submittedAt

def fromAcceptance (a : AsyncOrderAcceptance) (submittedAt staleAfter : Int) :
    Except String PendingAcceptance :=
  match a.orderId with
  | none => .error "pending acceptance has no venue order id"
  | some orderId => .ok {
      orderId := orderId
      tradeIds := a.tradeIds
      transactionsHashes := a.transactionsHashes
      commitState := a.commitState
      submittedAt := submittedAt
      staleAfter := staleAfter }

end PendingAcceptance

structure BackfilledFill where
  orderId : String
  tradeId : String
  size : ℚ
  price : ℚ
  side : String
  assetId : String
  transactionHash : String
  bucketIndex : Option Int
  deriving DecidableEq

/-- Only a confirmed trade with a published hash is a fill. -/
def BackfilledFill.fromResolved (trade : ResolvedTrade) : Option BackfilledFill :=
  match trade.settlement with
  | .confirmed transactionHash bucketIndex =>
    if isBlank transactionHash then none
    else some {
      orderId := trade.orderId
      tradeId := trade.tradeId
      size := trade.size
      price := trade.price
      side := trade.side
      assetId := trade.assetId
      transactionHash := transactionHash
      bucketIndex := bucketIndex }
  | _ => none

inductive BackfillVerdict where
  | settled (fills : List BackfilledFill) (failed : List (String × String))
  | stillPending (trades : List ResolvedTrade)
  | orderGoneOnVenue
  deriving DecidableEq

namespace BackfillVerdict

/-- A final trade that is no fill, with the status it is reported under. -/
def failure (trade : ResolvedTrade) : Option (String × String) :=
  match trade.settlement with
  | .confirmed _ _ =>
    if (BackfilledFill.fromResolved trade).isNone then
      some (trade.tradeId, "confirmed_without_hash")
    else none
  | .failed status => some (trade.tradeId, status)
  | _ => none

def ofTerminal (trades : List ResolvedTrade) : BackfillVerdict :=
  .settled (trades.filterMap BackfilledFill.fromResolved) (trades.filterMap failure)

def ofOutcome : SettlementOutcome → BackfillVerdict
  | .orderUnknownOnVenue => .orderGoneOnVenue
  | .stillSettling trades => .stillPending trades
  | .allTerminal trades => ofTerminal trades

def fills : BackfillVerdict → List BackfilledFill
  | settled fills _ => fills
  | stillPending _ | orderGoneOnVenue => []

end BackfillVerdict

namespace PendingAcceptance

variable (p : PendingAcceptance)

def backfillOrder (deadline : Nat) (rounds : List Round) :
    Option (Except String (BackfillVerdict × Shown)) :=
  (waitForSettlement p.orderId p.tradeIds deadline rounds).map fun answer =>
    answer.map fun r => (.ofOutcome r.1, r.2)

/-- One polling round without waiting. The list is asked for only if the order is not gone. -/
def pollOnce (order trades : Answer) : Except String (BackfillVerdict × Shown) :=
  match order with
  | .error e => .error e
  | .ok shown =>
    match shown.order with
    | none => .ok (.orderGoneOnVenue, shown)
    | some order =>
      if (orderUnknownVerdict order).isSome then .ok (.orderGoneOnVenue, shown)
      else match trades with
        | .error e => .error e
        | .ok shown =>
          let trades := projectTrades shown.trades p.orderId p.tradeIds
          if allTerminal trades then .ok (.ofTerminal trades, shown)
          else .ok (.stillPending trades, shown)

/-- The list shows the trade, it was asked for or is of the order, and it has not failed. -/
def Owes (shown : Shown) (trade : ClobTrade) : Prop :=
  trade ∈ shown.trades ∧ (trade.id ∈ p.tradeIds ∨ trade.BelongsTo p.orderId) ∧
    ¬ trade.HasStatus "FAILED"

instance (shown : Shown) (trade : ClobTrade) : Decidable (p.Owes shown trade) :=
  inferInstanceAs (Decidable (_ ∧ _))

end PendingAcceptance

/-- The trade has been reported as a confirmed fill with the hash that the list shows. -/
def Reported (fills : List BackfilledFill) (trade : ClobTrade) : Prop :=
  ∃ fill ∈ fills, fill.tradeId = trade.id ∧
    fill.transactionHash = trim trade.transactionHash ∧ isBlank fill.transactionHash = false

instance (fills : List BackfilledFill) (trade : ClobTrade) : Decidable (Reported fills trade) :=
  inferInstanceAs (Decidable (∃ fill ∈ fills, _))

variable {trade : ClobTrade} {p : PendingAcceptance} {shown : Shown}

theorem Reported.mono {fills more : List BackfilledFill} (h : Reported fills trade)
    (hsub : fills ⊆ more) : Reported more trade := by
  obtain ⟨fill, hm, hf⟩ := h
  exact ⟨fill, hsub hm, hf⟩

open List

theorem reported_ofTerminal {trades : List ResolvedTrade}
    (hm : ResolvedTrade.fromTrade trade ∈ trades) (hc : trade.HasStatus "CONFIRMED")
    (hh : isBlank trade.transactionHash = false) :
    Reported (BackfillVerdict.ofTerminal trades).fills trade := by
  have hbl : isBlank (trim trade.transactionHash) = false := by
    rw [isBlank_trim]
    exact hh
  have hse : (ResolvedTrade.fromTrade trade).settlement =
      .confirmed (trim trade.transactionHash) trade.bucketIndex := by
    rw [ResolvedTrade.fromTrade_settlement]
    exact classifyTrade_confirmed hc
  have hfi : ∃ fill, BackfilledFill.fromResolved (.fromTrade trade) = some fill ∧
      fill.tradeId = trade.id ∧ fill.transactionHash = trim trade.transactionHash := by
    unfold BackfilledFill.fromResolved
    rw [hse]
    dsimp only
    rw [hbl]
    exact ⟨_, rfl, rfl, rfl⟩
  obtain ⟨fill, hso, hi, hf⟩ := hfi
  refine ⟨fill, mem_filterMap.mpr ⟨_, hm, hso⟩, hi, hf, ?_⟩
  rw [hf]
  exact hbl

/-- What a verdict rests on, and the question whose answer it was. -/
inductive Judges (p : PendingAcceptance) : BackfillVerdict → Shown → Prop
  | gone {shown : Shown} : shown.OrderGone → Judges p .orderGoneOnVenue shown
  | settled {shown : Shown} : allTerminal (projectTrades shown.trades p.orderId p.tradeIds) = true →
      Judges p (.ofTerminal (projectTrades shown.trades p.orderId p.tradeIds)) shown
  | pending {shown : Shown} :
      Judges p (.stillPending (projectTrades shown.trades p.orderId p.tradeIds)) shown

section

variable (shown : Shown) (p : PendingAcceptance) (reported : List BackfilledFill)

/-- The list can be resolved: a trade of the order that is not reported has an id, and a hash
once it is confirmed. -/
def Shown.Resolvable : Prop := ∀ trade, p.Owes shown trade → Reported reported trade ∨
    ((trade.id ∈ p.tradeIds ∨ isBlank trade.id = false) ∧
      (trade.HasStatus "CONFIRMED" → isBlank trade.transactionHash = false))

def Shown.GoneClear : Prop :=
  shown.OrderGone → ∀ trade, p.Owes shown trade → Reported reported trade

end

theorem reported_of_settled {reported : List BackfilledFill}
    (ha : allTerminal (projectTrades shown.trades p.orderId p.tradeIds) = true)
    (hre : shown.Resolvable p reported) (ho : p.Owes shown trade) :
    Reported (reported ++
    (BackfillVerdict.ofTerminal (projectTrades shown.trades p.orderId p.tradeIds)).fills)
    trade := by
  rcases hre trade ho with hd | ⟨hi, hh⟩
  · exact hd.mono (subset_append_left _ _)
  · obtain ⟨hm, hof, hf⟩ := ho
    have hpr : ResolvedTrade.fromTrade trade ∈ projectTrades shown.trades p.orderId p.tradeIds := by
      apply mem_projectTrades hm
      rcases hof with hr | hof
      · exact Or.inl hr
      · exact hi.imp_right fun hbl => ⟨hof, hbl⟩
    have hte := allTerminal_mem ha hpr
    rw [ResolvedTrade.fromTrade_settlement] at hte
    have hc := isTerminal_classifyTrade hte hf
    exact (reported_ofTerminal hpr hc (hh hc)).mono (subset_append_right _ _)

theorem backfillOrder_judges {deadline : Nat} {rounds : List Round} {verdict : BackfillVerdict}
    (h : p.backfillOrder deadline rounds = some (.ok (verdict, shown))) :
    Judges p verdict shown ∧ ∃ round ∈ rounds,
    if verdict = .orderGoneOnVenue then round.order = .ok shown
    else round.trades = .ok shown ∨ round.last = .ok shown := by
  obtain ⟨answer, hw, ha⟩ := Option.map_eq_some_iff.mp h
  cases answer with
  | error e => cases ha
  | ok r =>
    obtain ⟨outcome, seen⟩ := r
    obtain ⟨rfl, rfl⟩ := Prod.mk.inj (Except.ok.inj ha)
    obtain ⟨hc, round, hm, hr⟩ := waitForSettlement_concludes hw
    cases hc with
    | gone hg => exact ⟨.gone hg, round, hm, hr⟩
    | terminal hal => exact ⟨.settled hal, round, hm, hr⟩
    | settling => exact ⟨.pending, round, hm, hr⟩

open PendingAcceptance

theorem pollOnce_judges {order trades : Answer} {verdict : BackfillVerdict}
    (h : p.pollOnce order trades = .ok (verdict, shown)) :
    Judges p verdict shown ∧
    if verdict = .orderGoneOnVenue then order = .ok shown else trades = .ok shown := by
  unfold pollOnce at h
  cases order with
  | error e => cases h
  | ok before =>
    cases hk : before.order with
    | none =>
      simp only [hk] at h
      cases h
      exact ⟨.gone (Shown.orderGone_of_none hk), rfl⟩
    | some order =>
      simp only [hk] at h
      cases hv : orderUnknownVerdict order with
      | some outcome =>
        simp only [hv] at h
        cases h
        exact ⟨.gone (Shown.orderGone_of_some hk hv), rfl⟩
      | none =>
        simp only [hv, Option.isSome_none, Bool.false_eq_true, if_false] at h
        cases trades with
        | error e => cases h
        | ok listed =>
          dsimp only at h
          split_ifs at h with ha
          · cases h
            exact ⟨.settled ha, rfl⟩
          · cases h
            exact ⟨.pending, rfl⟩

structure AsyncPendingRegistry where
  entries : List PendingAcceptance
  nodup : (entries.map orderId).Nodup

def pendingRegistryCap : Nat := 4096

namespace AsyncPendingRegistry

variable (r : AsyncPendingRegistry)

def remove (orderId : String) : AsyncPendingRegistry where
  entries := r.entries.filter fun p => p.orderId ≠ orderId
  nodup := r.nodup.sublist (filter_sublist.map _)

theorem mem_remove {orderId : String} {p : PendingAcceptance} :
    p ∈ (r.remove orderId).entries ↔ p ∈ r.entries ∧ p.orderId ≠ orderId := by
  unfold remove
  rw [mem_filter, decide_eq_true_iff]

theorem eq_of_orderId {p q : PendingAcceptance} (hp : p ∈ r.entries) (hq : q ∈ r.entries)
    (h : p.orderId = q.orderId) : p = q :=
  inj_on_of_nodup_map r.nodup hp hq h

def insert (p : PendingAcceptance) : AsyncPendingRegistry where
  entries := p :: (r.remove p.orderId).entries
  nodup := by
    rw [map_cons, nodup_cons]
    refine ⟨?_, (r.remove p.orderId).nodup⟩
    intro hm
    obtain ⟨q, hq, he⟩ := mem_map.mp hm
    exact (r.mem_remove.mp hq).2 he

def pending : List PendingAcceptance := r.entries.mergeSort fun p q => p.submittedAt ≤ q.submittedAt

theorem mem_pending {p : PendingAcceptance} : p ∈ r.pending ↔ p ∈ r.entries :=
  (mergeSort_perm _ _).mem_iff

theorem nodup_pending : (r.pending.map orderId).Nodup :=
  ((mergeSort_perm _ _).map _).nodup_iff.mpr r.nodup

/-- A full registry gives up its oldest entry for a new order. -/
def makeRoom (orderId : String) : AsyncPendingRegistry :=
  if pendingRegistryCap ≤ r.entries.length ∧ orderId ∉ r.entries.map PendingAcceptance.orderId then
    match r.pending with
    | oldest :: _ => r.remove oldest.orderId
    | [] => r
  else r

/-- Only an acceptance that owes settlement facts is kept. -/
def record (a : AsyncOrderAcceptance) (submittedAt staleAfter : Int) :
    Except String (AsyncPendingRegistry × Bool) :=
  if a.commitState.requiresBackfill = false then .ok (r, false)
  else match PendingAcceptance.fromAcceptance a submittedAt staleAfter with
    | .error e => .error e
    | .ok entry => .ok ((r.makeRoom entry.orderId).insert entry, true)

theorem length_remove_lt {p : PendingAcceptance} (hp : p ∈ r.entries) :
    (r.remove p.orderId).entries.length < r.entries.length := by
  apply length_filter_lt_length_iff_exists.mpr
  exact ⟨p, hp, by simp⟩

theorem length_insert_makeRoom (hc : r.entries.length ≤ pendingRegistryCap)
    (p : PendingAcceptance) :
    ((r.makeRoom p.orderId).insert p).entries.length ≤ pendingRegistryCap := by
  have hr (r : AsyncPendingRegistry) :
      (r.remove p.orderId).entries.length ≤ r.entries.length := length_filter_le _ _
  have hpos : 0 < pendingRegistryCap := by decide
  unfold insert makeRoom
  rw [length_cons]
  split_ifs with hf
  · cases ho : r.pending with
    | nil =>
      have hlen : r.entries.length = 0 := by
        rw [← (mergeSort_perm r.entries _).length_eq]
        exact congrArg length ho
      omega
    | cons oldest rest =>
      have hm : oldest ∈ r.entries := by
        rw [← r.mem_pending, ho]
        exact mem_cons_self
      have hl := r.length_remove_lt hm
      have hle := hr (r.remove oldest.orderId)
      dsimp only
      omega
  · by_cases hro : r.entries.length < pendingRegistryCap
    · have hle := hr r
      omega
    · -- a full registry that has the order loses the order's own entry
      have hm : p.orderId ∈ r.entries.map orderId := by
        by_contra hn
        exact hf ⟨Nat.le_of_not_lt hro, hn⟩
      obtain ⟨q, hq, hi⟩ := mem_map.mp hm
      have hl := r.length_remove_lt hq
      rw [hi] at hl
      omega

theorem record_bounded (hc : r.entries.length ≤ pendingRegistryCap) {a : AsyncOrderAcceptance}
    {submittedAt staleAfter : Int} {next : AsyncPendingRegistry} {kept : Bool}
    (h : r.record a submittedAt staleAfter = .ok (next, kept)) :
    next.entries.length ≤ pendingRegistryCap := by
  unfold record at h
  split_ifs at h
  · cases h
    exact hc
  · split at h
    · cases h
    · cases h
      exact r.length_insert_makeRoom hc _

end AsyncPendingRegistry

inductive AsyncReconKind where
  | settled
  | settlementFailed
  | stillPending
  | orderGone
  | stalePending

structure AsyncReconFinding where
  kind : AsyncReconKind
  venueOrderId : String
  detail : String
  action : String

/-- The finding of a reconciliation pass, which counts the fills of a verdict and names the
failures. -/
def PendingAcceptance.finding (p : PendingAcceptance) (now : Int) :
    BackfillVerdict → AsyncReconFinding
  | .settled fills failed =>
    let confirmed := toString fills.length
    let final := toString (fills.length + failed.length)
    let named := ", ".intercalate (failed.map fun f => f.1 ++ "=" ++ f.2)
    if failed.isEmpty then
      { kind := .settled
        venueOrderId := p.orderId
        detail := "all " ++ final ++ " trade(s) terminal; " ++ confirmed ++
          " confirmed fill(s) with settlement hashes"
        action := "resolved_settled" }
    else
      { kind := .settlementFailed
        venueOrderId := p.orderId
        detail := "terminal failures among the fills: " ++ named ++ " (" ++ confirmed ++
          " confirmed)"
        action := "reported_failed" }
  | .stillPending trades =>
    let described := ", ".intercalate (trades.map fun t => t.tradeId ++ "=" ++ t.settlement.asStr)
    { kind := if p.isStale now then .stalePending else .stillPending
      venueOrderId := p.orderId
      detail := "settlement still open (" ++ p.commitState.asStr ++ "): [" ++ described ++ "]"
      action := if p.isStale now then "reported_stale" else "keep_pending" }
  | .orderGoneOnVenue =>
    { kind := .orderGone
      venueOrderId := p.orderId
      detail := "venue does not know the order (not found / terminal cancelled)"
      action := "dropped_pending" }

structure Backfiller where
  registry : AsyncPendingRegistry
  reported : List BackfilledFill

namespace Backfiller

variable (x : Backfiller)

/-- The body of the backfill pass for one acceptance. Each fill goes to the sink; if the sink
refuses one, the pass ends there and the acceptance is kept. -/
def settle (sink : BackfilledFill → Bool) (p : PendingAcceptance) (verdict : BackfillVerdict) :
    Backfiller × Bool :=
  match verdict with
  | .settled fills _ =>
    if fills.all sink then (⟨x.registry.remove p.orderId, x.reported ++ fills⟩, true)
    else (⟨x.registry, x.reported ++ fills.takeWhile sink⟩, false)
  | .orderGoneOnVenue => (⟨x.registry.remove p.orderId, x.reported⟩, true)
  | .stillPending _ => (x, true)

def close (p : PendingAcceptance) (verdict : BackfillVerdict) : Backfiller :=
  match verdict with
  | .settled fills _ => ⟨x.registry.remove p.orderId, x.reported ++ fills⟩
  | .orderGoneOnVenue => ⟨x.registry.remove p.orderId, x.reported⟩
  | .stillPending _ => x

/-- The backfill pass over a snapshot of the registry: the verdicts if it came to its end. -/
def backfillPending (sink : BackfilledFill → Bool) (answers : String → Nat × List Round) :
    List PendingAcceptance → Backfiller → Backfiller × Option (List (String × BackfillVerdict))
  | [], x => (x, some [])
  | p :: rest, x =>
    match p.backfillOrder (answers p.orderId).1 (answers p.orderId).2 with
    | some (.ok (verdict, _)) =>
      match x.settle sink p verdict with
      | (y, true) =>
        let (z, out) := backfillPending sink answers rest y
        (z, out.map ((p.orderId, verdict) :: ·))
      | (y, false) => (y, none)
    -- the pass is still waiting, or a request failed
    | _ => (x, none)

def reconcileAsyncCommitments (answers : String → Answer × Answer) (now : Int) :
    List PendingAcceptance → Backfiller → Backfiller × Except String (List AsyncReconFinding)
  | [], x => (x, .ok [])
  | p :: rest, x =>
    match p.pollOnce (answers p.orderId).1 (answers p.orderId).2 with
    | .ok (verdict, _) =>
      let (z, out) := reconcileAsyncCommitments answers now rest (x.close p verdict)
      (z, out.map (p.finding now verdict :: ·))
    | .error e => (x, .error e)

inductive Event where
  | record (a : AsyncOrderAcceptance) (submittedAt staleAfter : Int)
  | backfill (p : PendingAcceptance) (sink : BackfilledFill → Bool) (deadline : Nat)
      (rounds : List Round)
  | reconcile (p : PendingAcceptance) (order trades : Answer)
  | poll (p : PendingAcceptance) (order trades : Answer)

namespace Event

def judged : Event → Option (PendingAcceptance × BackfillVerdict × Shown)
  | record .. => none
  | backfill p _ deadline rounds =>
    match p.backfillOrder deadline rounds with
    | some (.ok r) => some (p, r)
    | _ => none
  | reconcile p order trades | poll p order trades =>
    match p.pollOnce order trades with
    | .ok r => some (p, r)
    | .error _ => none

def after (x : Backfiller) : Event → Backfiller
  | record a submittedAt staleAfter =>
    match x.registry.record a submittedAt staleAfter with
    | .ok r => ⟨r.1, x.reported⟩
    | .error _ => x
  | backfill p sink deadline rounds =>
    match p.backfillOrder deadline rounds with
    | some (.ok r) => (x.settle sink p r.1).1
    | _ => x
  | reconcile p order trades =>
    match p.pollOnce order trades with
    | .ok r => x.close p r.1
    | .error _ => x
  | poll p order trades =>
    match p.pollOnce order trades with
    | .ok r => ⟨x.registry, x.reported ++ r.1.fills⟩
    | .error _ => x

def Pending (x : Backfiller) : Event → Prop
  | record .. => True
  | backfill p .. | reconcile p .. | poll p .. => p ∈ x.registry.entries

/-- What is asked of the venue's answers: an order is not gone while a trade of it has not
been reported, and the trades on the list can be resolved. -/
def Clear (reported : List BackfilledFill) : Event → Prop
  | record .. | poll .. => True
  | backfill p _ _ rounds => ∀ round ∈ rounds,
      (∀ shown, round.order = .ok shown → shown.GoneClear p reported) ∧
      (∀ shown, round.trades = .ok shown ∨ round.last = .ok shown → shown.Resolvable p reported)
  | reconcile p order trades =>
      (∀ shown, order = .ok shown → shown.GoneClear p reported) ∧
      (∀ shown, trades = .ok shown → shown.Resolvable p reported)

end Event

def Step (x : Backfiller) (event : Event) (y : Backfiller) : Prop :=
  event.Pending x ∧ y = event.after x

variable {x}

theorem close_eq (p : PendingAcceptance) (verdict : BackfillVerdict) :
    x.close p verdict = (x.settle (fun _ => true) p verdict).1 := by
  cases verdict with
  | settled fills failed =>
    have ha : fills.all (fun _ => true) = true := all_eq_true.mpr fun _ _ => rfl
    unfold close settle
    dsimp only
    rw [if_pos ha]
  | stillPending trades | orderGoneOnVenue => rfl

variable {sink : BackfilledFill → Bool} {verdict : BackfillVerdict}

theorem mem_settle {p q : PendingAcceptance} (hq : q ∈ x.registry.entries)
    (hn : q.orderId ≠ p.orderId) :
    q ∈ (x.settle sink p verdict).1.registry.entries := by
  unfold settle
  split
  · split_ifs
    · exact x.registry.mem_remove.mpr ⟨hq, hn⟩
    · exact hq
  · exact x.registry.mem_remove.mpr ⟨hq, hn⟩
  · exact hq

theorem settle_dropped {p q : PendingAcceptance} (hq : q ∈ x.registry.entries)
    (hd : q ∉ (x.settle sink p verdict).1.registry.entries) :
    q.orderId = p.orderId ∧ (∀ trades, verdict ≠ .stillPending trades) ∧
    (x.settle sink p verdict).1.reported = x.reported ++ verdict.fills := by
  refine ⟨Classical.byContradiction fun hn => hd (mem_settle hq hn), ?_⟩
  unfold settle at hd ⊢
  cases verdict with
  | settled fills failed =>
    refine ⟨fun trades => BackfillVerdict.noConfusion, ?_⟩
    dsimp only at hd ⊢
    by_cases ha : fills.all sink = true
    · rw [if_pos ha]
      rfl
    · rw [if_neg ha] at hd
      exact absurd hq hd
  | stillPending trades => exact absurd hq hd
  | orderGoneOnVenue =>
    exact ⟨fun trades => BackfillVerdict.noConfusion, (append_nil _).symm⟩

open Event

theorem backfillPending_run (sink : BackfilledFill → Bool) (answers : String → Nat × List Round)
    (snapshot : List PendingAcceptance) (hn : (snapshot.map orderId).Nodup)
    (hm : ∀ p ∈ snapshot, p ∈ x.registry.entries) :
    ∃ tr, Run Step x tr (backfillPending sink answers snapshot x).1 := by
  induction snapshot generalizing x with
  | nil => exact ⟨[], .nil⟩
  | cons p rest ih =>
    rw [map_cons, nodup_cons] at hn
    have hp : p ∈ x.registry.entries := hm p mem_cons_self
    have hrest : ∀ q ∈ rest, q ∈ x.registry.entries ∧ q.orderId ≠ p.orderId := by
      intro q hq
      refine ⟨hm q (mem_cons_of_mem _ hq), ?_⟩
      intro he
      exact hn.1 (he ▸ mem_map_of_mem hq)
    rw [backfillPending]
    split
    · next verdict shown ha =>
      have hst : Step x (.backfill p sink (answers p.orderId).1 (answers p.orderId).2)
          (x.settle sink p verdict).1 := by
        refine ⟨hp, ?_⟩
        unfold Event.after
        simp only [ha]
      split
      · next y hse =>
        rw [hse] at hst
        have hkept : ∀ q ∈ rest, q ∈ y.registry.entries := by
          intro q hq
          have hsta : q ∈ (x.settle sink p verdict).1.registry.entries :=
            mem_settle (hrest q hq).1 (hrest q hq).2
          rw [hse] at hsta
          exact hsta
        obtain ⟨tr, hr⟩ := ih hn.2 hkept
        exact ⟨_, (Run.single hst).append hr⟩
      · next y hse =>
        rw [hse] at hst
        exact ⟨_, Run.single hst⟩
    · exact ⟨[], .nil⟩

theorem reconcileAsyncCommitments_run (answers : String → Answer × Answer) (now : Int)
    (snapshot : List PendingAcceptance) (hn : (snapshot.map orderId).Nodup)
    (hm : ∀ p ∈ snapshot, p ∈ x.registry.entries) :
    ∃ tr, Run Step x tr (reconcileAsyncCommitments answers now snapshot x).1 := by
  induction snapshot generalizing x with
  | nil => exact ⟨[], .nil⟩
  | cons p rest ih =>
    rw [map_cons, nodup_cons] at hn
    rw [reconcileAsyncCommitments]
    split
    · next verdict shown ha =>
      have hst : Step x (.reconcile p (answers p.orderId).1 (answers p.orderId).2)
          (x.close p verdict) := by
        refine ⟨hm p mem_cons_self, ?_⟩
        unfold Event.after
        simp only [ha]
      have hkept : ∀ q ∈ rest, q ∈ (x.close p verdict).registry.entries := by
        intro q hq
        rw [close_eq]
        apply mem_settle (hm q (mem_cons_of_mem _ hq))
        intro he
        exact hn.1 (he ▸ mem_map_of_mem hq)
      obtain ⟨tr, hr⟩ := ih hn.2 hkept
      exact ⟨_, (Run.single hst).append hr⟩
    · exact ⟨[], .nil⟩

theorem reported_of_judges {p : PendingAcceptance} {shown : Shown} {reported : List BackfilledFill}
    (hj : Judges p verdict shown) (hc : ∀ trades, verdict ≠ .stillPending trades)
    (hg : verdict = .orderGoneOnVenue → shown.GoneClear p reported)
    (hl : verdict ≠ .orderGoneOnVenue → shown.Resolvable p reported) {trade : ClobTrade}
    (ho : p.Owes shown trade) : Reported (reported ++ verdict.fills) trade := by
  cases hj with
  | gone h =>
    have hd := hg rfl h trade ho
    exact hd.mono (subset_append_left _ _)
  | settled ha => exact reported_of_settled ha (hl BackfillVerdict.noConfusion) ho
  | pending => exact absurd rfl (hc _)

namespace Event

theorem Clear.judged {event : Event} {reported : List BackfilledFill}
    (hc : event.Clear reported) (hpo : ∀ p order trades, event ≠ .poll p order trades)
    {p : PendingAcceptance} {verdict : BackfillVerdict} {shown : Shown}
    (h : event.judged = some (p, verdict, shown)) :
    Judges p verdict shown ∧ (verdict = .orderGoneOnVenue → shown.GoneClear p reported) ∧
    (verdict ≠ .orderGoneOnVenue → shown.Resolvable p reported) := by
  cases event with
  | record a submittedAt staleAfter => cases h
  | poll q order trades => exact absurd rfl (hpo q order trades)
  | backfill q sink deadline rounds =>
    unfold Event.judged at h
    dsimp only at h
    split at h
    · next r ha =>
      cases h
      obtain ⟨hj, round, hr, hsh⟩ := backfillOrder_judges ha
      refine ⟨hj, ?_, ?_⟩
      · intro hg
        rw [if_pos hg] at hsh
        exact (hc round hr).1 shown hsh
      · intro hg
        rw [if_neg hg] at hsh
        exact (hc round hr).2 shown hsh
    · cases h
  | reconcile q order trades =>
    unfold Event.judged at h
    dsimp only at h
    split at h
    · next r ha =>
      cases h
      obtain ⟨hj, hsh⟩ := pollOnce_judges ha
      refine ⟨hj, ?_, ?_⟩
      · intro hg
        rw [if_pos hg] at hsh
        exact hc.1 shown hsh
      · intro hg
        rw [if_neg hg] at hsh
        exact hc.2 shown hsh
    · cases h

theorem judged_of_dropped {event : Event}
    (hre : ∀ a submittedAt staleAfter, event ≠ .record a submittedAt staleAfter)
    (hpending : event.Pending x) {p : PendingAcceptance} (hp : p ∈ x.registry.entries)
    (hd : p ∉ (event.after x).registry.entries) :
    (∀ p order trades, event ≠ .poll p order trades) ∧
    ∃ verdict shown, event.judged = some (p, verdict, shown) ∧
      (∀ trades, verdict ≠ .stillPending trades) ∧
      (event.after x).reported = x.reported ++ verdict.fills := by
  cases event with
  | record a submittedAt staleAfter => exact absurd rfl (hre a submittedAt staleAfter)
  | poll q order trades =>
    unfold after at hd
    dsimp only at hd
    split at hd
    · exact absurd hp hd
    · exact absurd hp hd
  | backfill q sink deadline rounds =>
    refine ⟨fun _ _ _ => Event.noConfusion, ?_⟩
    unfold after judged at *
    dsimp only at hd ⊢
    split at hd
    · next r ha =>
      obtain ⟨hi, hc, hr⟩ := settle_dropped hp hd
      obtain rfl := x.registry.eq_of_orderId hp hpending hi
      exact ⟨r.1, r.2, rfl, hc, hr⟩
    · exact absurd hp hd
  | reconcile q order trades =>
    refine ⟨fun _ _ _ => Event.noConfusion, ?_⟩
    unfold after judged at *
    dsimp only at hd ⊢
    split at hd
    · next r ha =>
      rw [close_eq] at hd
      obtain ⟨hi, hc, hr⟩ := settle_dropped hp hd
      obtain rfl := x.registry.eq_of_orderId hp hpending hi
      rw [close_eq]
      exact ⟨r.1, r.2, rfl, hc, hr⟩
    · exact absurd hp hd

end Event

/-- While the venue shows no order as gone that still has an unreported trade, and publishes
an id and a hash with every trade it confirms, no acceptance is dropped before each trade of
its order has been reported. -/
theorem executed_trade_kept {y : Backfiller} {tr : List (Entry Backfiller Event)}
    (hrun : Run Step x tr y) (hclear : ∀ e ∈ tr, e.label.Clear e.pre.reported)
    {e : Entry Backfiller Event} (he : e ∈ tr)
    (hrecord : ∀ a submittedAt staleAfter, e.label ≠ .record a submittedAt staleAfter)
    {p : PendingAcceptance} (hp : p ∈ e.pre.registry.entries)
    (hdropped : p ∉ e.post.registry.entries) :
    ∃ verdict shown, e.label.judged = some (p, verdict, shown) ∧
      ∀ trade, p.Owes shown trade → Reported e.post.reported trade := by
  obtain ⟨-, -, hpending, hpost⟩ := hrun.mem_reached he
  rw [hpost] at hdropped ⊢
  obtain ⟨hpo, verdict, shown, hju, hc, hr⟩ := judged_of_dropped hrecord hpending hp hdropped
  obtain ⟨hj, hg, hl⟩ := (hclear e he).judged hpo hju
  refine ⟨verdict, shown, hju, ?_⟩
  intro trade ho
  rw [hr]
  exact reported_of_judges hj hc hg hl ho

def matchedPart : PendingAcceptance where
  orderId := "0xord1"
  tradeIds := ["trade-1"]
  transactionsHashes := []
  commitState := .matchedAwaitingSettlement
  submittedAt := 0
  staleAfter := 900

def partTrade (status transactionHash : String) : ClobTrade where
  id := "trade-1"
  orderId := "0xord1"
  assetId := "123"
  side := "BUY"
  size := some 5
  price := some (2 / 5)
  status := status
  transactionHash := transactionHash
  bucketIndex := some 0

def partShown (status tradeStatus transactionHash : String) : Shown where
  order := some ⟨status, some 5, ["trade-1"]⟩
  trades := [partTrade tradeStatus transactionHash]

def awaiting : Backfiller := ⟨⟨[matchedPart], nodup_singleton _⟩, []⟩

/-- The rest of the order is cancelled before the part that was matched has settled: a single
poll and a wait both take the order for gone and drop the acceptance, with its trade on the
list and never reported. -/
theorem cancelled_rest_drops_trade :
    let shown := partShown "canceled" "MATCHED" ""
    ∀ event ∈ [reconcile matchedPart (.ok shown) (.ok shown),
        backfill matchedPart (fun _ => true) 300 [⟨.ok shown, .ok shown, 0, 80, .ok shown⟩]],
      Run Step awaiting [⟨awaiting, event, event.after awaiting⟩] (event.after awaiting) ∧
      event.judged = some (matchedPart, .orderGoneOnVenue, shown) ∧
      matchedPart ∈ awaiting.registry.entries ∧
      matchedPart ∉ (event.after awaiting).registry.entries ∧
      matchedPart.Owes shown (partTrade "MATCHED" "") ∧
      ¬ Reported (event.after awaiting).reported (partTrade "MATCHED" "") := by
  intro shown event he
  have ho : matchedPart.Owes shown (partTrade "MATCHED" "") := by decide +kernel
  rcases mem_pair.mp he with rfl | rfl
  · refine ⟨Run.single ⟨mem_singleton_self _, rfl⟩, ?_, mem_singleton_self _, ?_,
      ho, ?_⟩ <;> decide +kernel
  · refine ⟨Run.single ⟨mem_singleton_self _, rfl⟩, ?_, mem_singleton_self _, ?_,
      ho, ?_⟩ <;> decide +kernel

theorem executed_trade_kept_confirmed :
    let shown := partShown "matched" "CONFIRMED" "0xsettle1"
    let event := reconcile matchedPart (.ok shown) (.ok shown)
    ∃ verdict seen, event.judged = some (matchedPart, verdict, seen) ∧
      ∀ trade, matchedPart.Owes seen trade → Reported (event.after awaiting).reported trade := by
  intro shown event
  have hr : Run Step awaiting [⟨awaiting, event, event.after awaiting⟩]
      (event.after awaiting) := Run.single ⟨mem_singleton_self _, rfl⟩
  have hk : ¬ shown.OrderGone := by
    intro hg
    have hv := hg _ rfl
    revert hv
    decide +kernel
  have hc : event.Clear awaiting.reported := by
    constructor
    · intro seen hse
      obtain rfl := Except.ok.inj hse
      intro hg
      exact absurd hg hk
    · intro seen hse trade ho
      obtain rfl := Except.ok.inj hse
      obtain rfl := mem_singleton.mp ho.1
      exact Or.inr (by decide +kernel)
  refine executed_trade_kept hr ?_ (mem_singleton_self _) ?_ (mem_singleton_self _) ?_
  · intro e he
    obtain rfl := mem_singleton.mp he
    exact hc
  · intro a submittedAt staleAfter
    exact Event.noConfusion
  · decide +kernel

theorem length_settle_le (p : PendingAcceptance) :
    (x.settle sink p verdict).1.registry.entries.length ≤ x.registry.entries.length := by
  have hr : (x.registry.remove p.orderId).entries.length ≤ _ := length_filter_le _ _
  unfold settle
  split
  · split_ifs
    · exact hr
    · exact le_rfl
  · exact hr
  · exact le_rfl

end Backfiller

end SniperBot.Polymarket
