import Mathlib.Algebra.BigOperators.Group.List.Basic
import Mathlib.Algebra.Order.Ring.Rat
import Mathlib.Data.List.Induction
import SniperBot.Lib.Guard

/-!
# Trades asked for in a chat

A chat that is linked to an organization may ask for trades. Each one waits until the user who
asked for it taps a button, and the limits of the chat are checked again at the tap. Instants
and lengths of time are integers, amounts are exact, and the calendar is a parameter.
-/

namespace SniperBot.Telegram

open Lib.Guard Function List

inductive TradeSide where
  | buy
  | sell
  deriving DecidableEq

structure TradeIntent where
  chatId : Int
  userId : Int
  organizationId : String
  side : TradeSide
  mint : String
  amountSol : ℚ
  sellFraction : ℚ

inductive TradeDeny where
  | unboundChat | tradingDisabled | invalidMint | invalidAmount | tooManyTrades
  | solPerTradeExceeded | dailySolExceeded | unknownConfirmation | confirmationExpired
  | wrongUser | alreadyResolved

/-- A text of base58 digits with the length of an address; a blank text is too short. -/
def TradeIntent.mintValid (intent : TradeIntent) : Bool :=
  let digits := intent.mint.toList
  digits.all (fun c => c.isAlphanum && c ∉ ['0', 'O', 'I', 'l']) &&
    32 ≤ digits.length && digits.length ≤ 44

def TradeIntent.amountValid (intent : TradeIntent) : Bool :=
  match intent.side with
  | .buy => 0 < intent.amountSol
  | .sell => 0 < intent.sellFraction && intent.sellFraction ≤ 1

structure ChatBinding where
  organizationId : String
  tradingEnabled : Bool

structure ChatLimits where
  maxTradesPerWindow : Nat
  window : Nat
  maxSolPerTrade : ℚ
  maxDailySol : ℚ
  confirmTtl : Nat

structure PendingTrade where
  intent : TradeIntent
  createdAt : Int
  expiresAt : Int

structure TradeSession where
  bindings : Int → Option ChatBinding
  limits : ChatLimits
  /-- When each chat has traded, without what has left the window. -/
  window : Int → List Int
  /-- What a chat has spent on a day. -/
  dailySol : Int × Int → ℚ
  pending : String → Option PendingTrade
  resolved : List String

def resolvedCap : Nat := 10000

namespace TradeSession

def new (limits : ChatLimits) : Except String TradeSession := do
  ensure (limits.maxTradesPerWindow ≠ 0) "limits: max_trades_per_window must be > 0"
  ensure (limits.window ≠ 0) "limits: window_secs must be > 0"
  ensure (0 < limits.maxSolPerTrade) "limits: max_sol_per_trade must be positive"
  ensure (0 < limits.maxDailySol) "limits: max_daily_sol must be positive"
  ensure (limits.confirmTtl ≠ 0) "limits: confirm_ttl_secs must be > 0"
  return ⟨fun _ => none, limits, fun _ => [], fun _ => 0, fun _ => none, []⟩

variable (dayKey : Int → Int) (s : TradeSession) (intent : TradeIntent) (nonce : String)
  (chatId userId now : Int)

def bind (binding : ChatBinding) : TradeSession :=
  { s with bindings := update s.bindings chatId (some binding) }

def unbind : TradeSession :=
  { s with
    bindings := update s.bindings chatId none
    pending := fun n => (s.pending n).filter fun p => p.intent.chatId ≠ chatId }

def pruneExpired : TradeSession :=
  { s with pending := fun n => (s.pending n).filter fun p => now < p.expiresAt }

def tradesInWindow : Nat := (s.window chatId).countP fun t => now - s.limits.window < t

def checkLimits : Except TradeDeny Unit := do
  ensure (s.tradesInWindow intent.chatId now < s.limits.maxTradesPerWindow) .tooManyTrades
  if intent.side = .buy then
    ensure (intent.amountSol ≤ s.limits.maxSolPerTrade) .solPerTradeExceeded
    ensure (s.dailySol (intent.chatId, dayKey now) + intent.amountSol ≤ s.limits.maxDailySol)
      .dailySolExceeded

def consumeCapacity : TradeSession :=
  { s with
    window := update s.window intent.chatId
      ((s.window intent.chatId ++ [now]).dropWhile fun t => t ≤ now - s.limits.window)
    dailySol := if intent.side = .buy then
      let key := (intent.chatId, dayKey now)
      update s.dailySol key (s.dailySol key + intent.amountSol) else s.dailySol }

def markResolved : TradeSession :=
  { s with resolved :=
      (if resolvedCap ≤ s.resolved.length then s.resolved.tail else s.resolved) ++ [nonce] }

/-- The request that the chat's own organization is filled into, under the drawn nonce. -/
def request : Except TradeDeny (PendingTrade × TradeSession) := do
  ensure (intent.mintValid = true) .invalidMint
  ensure (intent.amountValid = true) .invalidAmount
  s.checkLimits dayKey intent now
  let p := ⟨intent, now, now + s.limits.confirmTtl⟩
  return (p, { s with pending := update s.pending nonce (some p) })

def prepareConfirmation : Except TradeDeny (PendingTrade × TradeSession) := do
  let binding ← okOr (s.bindings intent.chatId) .unboundChat
  ensure (binding.tradingEnabled = true) .tradingDisabled
  s.request dayKey { intent with organizationId := binding.organizationId } nonce now

/-- A tap on the button of a request. -/
def confirm : Except TradeDeny TradeIntent × TradeSession :=
  if nonce ∈ s.resolved then (.error .alreadyResolved, s)
  else match s.pending nonce with
    | none => (.error .unknownConfirmation, s)
    | some p =>
      -- someone else's request is put back
      if p.intent.userId ≠ userId then (.error .wrongUser, s)
      else
        let taken := { s with pending := update s.pending nonce none }
        if p.expiresAt ≤ now then (.error .confirmationExpired, taken.markResolved nonce)
        else match s.bindings p.intent.chatId with
          | none => (.error .unboundChat, taken)
          | some binding =>
            if binding.tradingEnabled = false then
              (.error .tradingDisabled, taken.markResolved nonce)
            else match s.checkLimits dayKey p.intent now with
              | .error deny => (.error deny, taken.markResolved nonce)
              | .ok () =>
                (.ok p.intent, (taken.consumeCapacity dayKey p.intent now).markResolved nonce)

def cancel : Except TradeDeny Unit × TradeSession :=
  if nonce ∈ s.resolved then (.error .alreadyResolved, s)
  else match s.pending nonce with
    | none => (.error .unknownConfirmation, s)
    | some p =>
      if p.intent.userId ≠ userId then (.error .wrongUser, s)
      else (.ok (), { s with pending := update s.pending nonce none }.markResolved nonce)

end TradeSession

/-! ## Runs -/

inductive Op where
  | bind (chatId : Int) (binding : ChatBinding)
  | unbind (chatId : Int)
  | prune (now : Int)
  | prepare (intent : TradeIntent) (nonce : String) (now : Int)
  | confirm (nonce : String) (userId now : Int)
  | cancel (nonce : String) (userId : Int)

/-- A trade that a tap has released to the executor. -/
structure Release where
  userId : Int
  time : Int
  intent : TradeIntent

variable (dayKey : Int → Int)

def TradeSession.step (s : TradeSession) : Op → TradeSession × Option Release
  | .bind chatId binding => (s.bind chatId binding, none)
  | .unbind chatId => (s.unbind chatId, none)
  | .prune now => (s.pruneExpired now, none)
  | .prepare intent nonce now =>
    match s.prepareConfirmation dayKey intent nonce now with
    | .ok (_, t) => (t, none)
    | .error _ => (s, none)
  | .confirm nonce userId now =>
    match s.confirm dayKey nonce userId now with
    | (.ok intent, t) => (t, some ⟨userId, now, intent⟩)
    | (.error _, t) => (t, none)
  | .cancel nonce userId => ((s.cancel nonce userId).2, none)

/-- The session after the operations, and what they have released. -/
def run (s : TradeSession) (ops : List Op) : TradeSession × List Release :=
  ops.foldl (fun (s, xs) op => ((s.step dayKey op).1, xs ++ (s.step dayKey op).2.toList)) (s, [])

def spentOn (key : Int × Int) (xs : List Release) : ℚ :=
  ((xs.filter fun x => x.intent.side = .buy ∧ (x.intent.chatId, dayKey x.time) = key).map
    fun x => x.intent.amountSol).sum

/-- The releases of the chat that are in the window at the instant. -/
def recent (L : ChatLimits) (chatId now : Int) (xs : List Release) : Nat :=
  xs.countP fun x => x.intent.chatId = chatId ∧ now - L.window < x.time

open TradeSession

variable {dayKey} {s t : TradeSession} {x : Release} {xs : List Release} {L : ChatLimits}

theorem checkLimits_ok {intent : TradeIntent} {now : Int}
    (h : s.checkLimits dayKey intent now = .ok ()) :
    s.tradesInWindow intent.chatId now < s.limits.maxTradesPerWindow ∧
    (intent.side = .buy → intent.amountSol ≤ s.limits.maxSolPerTrade ∧
      s.dailySol (intent.chatId, dayKey now) + intent.amountSol ≤ s.limits.maxDailySol) := by
  obtain ⟨hn, hb⟩ := ensure_bind_eq_ok.mp h
  refine ⟨hn, fun hs => ?_⟩
  rw [if_pos hs] at hb
  obtain ⟨h1, h2⟩ := ensure_bind_eq_ok.mp hb
  exact ⟨h1, ensure_eq_ok.mp h2⟩

/-- What the limits are judged by. -/
def TradeSession.books (s : TradeSession) := (s.limits, s.window, s.dailySol)

theorem confirm_cases (dayKey : Int → Int) (s : TradeSession) (nonce : String) (userId now : Int) :
    (∃ deny t, s.confirm dayKey nonce userId now = (.error deny, t) ∧ t.books = s.books) ∨
    ∃ intent t, s.confirm dayKey nonce userId now = (.ok intent, t) ∧ intent.userId = userId ∧
      s.checkLimits dayKey intent now = .ok () ∧
      t.books = (s.consumeCapacity dayKey intent now).books := by
  unfold confirm
  split
  · exact .inl ⟨_, _, rfl, rfl⟩
  split
  · exact .inl ⟨_, _, rfl, rfl⟩
  split
  · exact .inl ⟨_, _, rfl, rfl⟩
  next p _ hu =>
  dsimp only
  split
  · exact .inl ⟨_, _, rfl, rfl⟩
  split
  · exact .inl ⟨_, _, rfl, rfl⟩
  split
  · exact .inl ⟨_, _, rfl, rfl⟩
  split
  · exact .inl ⟨_, _, rfl, rfl⟩
  next hl => exact .inr ⟨p.intent, _, rfl, not_not.mp hu, hl, rfl⟩

/-- A step releases nothing and leaves the books alone, or releases a trade that its own user has
confirmed within the limits and books it. -/
theorem step_cases (s : TradeSession) (op : Op) :
    (s.step dayKey op).2 = none ∧ (s.step dayKey op).1.books = s.books ∨
    ∃ x, (s.step dayKey op).2 = some x ∧ x.intent.userId = x.userId ∧
      s.checkLimits dayKey x.intent x.time = .ok () ∧
      (s.step dayKey op).1.books = (s.consumeCapacity dayKey x.intent x.time).books := by
  cases op with
  | bind | unbind | prune => exact .inl ⟨rfl, rfl⟩
  | prepare intent nonce now =>
    simp only [step]
    split
    next h =>
      simp only [prepareConfirmation, request, bind_eq_ok] at h
      obtain ⟨_, -, -, -, -, -, -, -, -, -, h⟩ := h
      cases h
      exact .inl ⟨rfl, rfl⟩
    · exact .inl ⟨rfl, rfl⟩
  | confirm nonce userId now =>
    simp only [step]
    rcases confirm_cases dayKey s nonce userId now with ⟨_, _, h, hb⟩ | ⟨intent, _, h, hu, hl, hb⟩
    · rw [h]
      exact .inl ⟨rfl, hb⟩
    · rw [h]
      exact .inr ⟨⟨userId, now, intent⟩, rfl, hu, hl, hb⟩
  | cancel nonce userId =>
    refine .inl ⟨rfl, ?_⟩
    simp only [step, cancel]
    split
    · rfl
    split
    · rfl
    split <;> rfl

/-- The books show what has been released. -/
structure Shows (dayKey : Int → Int) (L : ChatLimits) (xs : List Release) (s : TradeSession) :
    Prop where
  limits : s.limits = L
  spent : ∀ key, s.dailySol key = spentOn dayKey key xs
  /-- The window lacks only what had left it when some trade was released. -/
  window : ∀ chatId, ∃ old,
    (xs.filter fun x => x.intent.chatId = chatId).map Release.time = old ++ s.window chatId ∧
    ∀ t ∈ old, ∃ x ∈ xs, t ≤ x.time - L.window

theorem Shows.congr (h : Shows dayKey L xs s) (hb : t.books = s.books) : Shows dayKey L xs t := by
  obtain ⟨hl, hw, hd⟩ := Prod.mk.inj hb |>.imp_right Prod.mk.inj
  exact ⟨hl ▸ h.limits, hd ▸ h.spent, hw ▸ h.window⟩

theorem spentOn_snoc (key : Int × Int) (xs : List Release) (x : Release) :
    spentOn dayKey key (xs ++ [x]) = spentOn dayKey key xs +
      if x.intent.side = .buy ∧ (x.intent.chatId, dayKey x.time) = key then x.intent.amountSol
      else 0 := by
  by_cases h : x.intent.side = .buy ∧ (x.intent.chatId, dayKey x.time) = key <;>
    simp [spentOn, h]

theorem dailySol_consumeCapacity (intent : TradeIntent) (now : Int) (key : Int × Int) :
    (s.consumeCapacity dayKey intent now).dailySol key = s.dailySol key +
      if intent.side = .buy ∧ (intent.chatId, dayKey now) = key then intent.amountSol else 0 := by
  by_cases hs : intent.side = .buy
  · by_cases hk : (intent.chatId, dayKey now) = key
    · simp [consumeCapacity, hs, hk]
    · simp [consumeCapacity, hs, hk, update_of_ne (Ne.symm hk)]
  · simp [consumeCapacity, hs]

theorem Shows.release (h : Shows dayKey L xs s) (x : Release) :
    Shows dayKey L (xs ++ [x]) (s.consumeCapacity dayKey x.intent x.time) := by
  refine ⟨h.limits, fun key => ?_, fun chatId => ?_⟩
  · rw [spentOn_snoc, ← h.spent, dailySol_consumeCapacity]
  · obtain ⟨old, hold, hle⟩ := h.window chatId
    have hle' : ∀ t ∈ old, ∃ y ∈ xs ++ [x], t ≤ y.time - L.window := fun t ht =>
      have ⟨y, hy, hty⟩ := hle t ht
      ⟨y, mem_append_left _ hy, hty⟩
    rw [filter_append, map_append, hold]
    by_cases hc : x.intent.chatId = chatId
    · -- what the loop takes from the front had left the window at this release
      subst hc
      refine ⟨old ++ (s.window x.intent.chatId ++ [x.time]).takeWhile
        fun t => t ≤ x.time - s.limits.window, ?_, fun t ht => ?_⟩
      · simp [consumeCapacity, takeWhile_append_dropWhile]
      · rcases mem_append.mp ht with ht | ht
        · exact hle' t ht
        · refine ⟨x, mem_append_right _ (mem_singleton_self _), ?_⟩
          exact h.limits ▸ of_decide_eq_true (all_eq_true.mp all_takeWhile t ht)
    · exact ⟨old, by simp [consumeCapacity, hc, update_of_ne (Ne.symm hc)], hle'⟩

theorem shows_run (dayKey : Int → Int) (h : TradeSession.new L = .ok s) (ops : List Op) :
    Shows dayKey L (run dayKey s ops).2 (run dayKey s ops).1 := by
  induction ops using reverseRecOn with
  | nil =>
    simp only [TradeSession.new, bind_eq_ok] at h
    obtain ⟨-, -, -, -, -, -, -, -, -, -, h⟩ := h
    cases h
    exact ⟨rfl, fun _ => rfl, fun _ => ⟨[], rfl, fun _ ht => by cases ht⟩⟩
  | append_singleton ops op ih =>
    simp only [run, foldl_append, foldl_cons, foldl_nil] at ih ⊢
    rcases step_cases _ op with ⟨hn, hb⟩ | ⟨x, hx, -, -, hb⟩
    · rw [hn, Option.toList_none, append_nil]
      exact ih.congr hb
    · rw [hx, Option.toList_some]
      exact (ih.release x).congr hb

theorem Shows.recent_le (h : Shows dayKey L xs s) {chatId now : Int}
    (hc : ∀ y ∈ xs, y.time ≤ now) : recent L chatId now xs ≤ s.tradesInWindow chatId now := by
  obtain ⟨old, hold, hle⟩ := h.window chatId
  calc recent L chatId now xs
      = ((xs.filter fun x => x.intent.chatId = chatId).map Release.time).countP
          fun t => now - L.window < t := by
        rw [countP_map, countP_filter]
        refine countP_congr fun y _ => ?_
        simp [and_comm]
    _ ≤ _ := by
        rw [hold, countP_append, countP_eq_zero.mpr, zero_add, ← h.limits]
        · exact le_rfl
        · intro t ht
          obtain ⟨y, hy, hty⟩ := hle t ht
          have := hc y hy
          simp only [decide_eq_true_eq]
          omega

end SniperBot.Telegram
