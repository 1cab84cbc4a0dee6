import Mathlib.Data.List.AList

/-!
# Feed cursors

Every event feed advances a cursor. A sequenced item at or behind the cursor is dropped,
one that is further ahead than the next reports the range that is missing. Times are
integers; a sequence is a natural number, of which no operation leaves the range of the
machine words.
-/

namespace SniperBot.Ha

inductive FeedId where
  | sniperLaunches
  | copyLogs
  | copyGeyser
  | polymarketMarket
  | polymarketUser
  deriving DecidableEq

def FeedId.asStr : FeedId → String
  | .sniperLaunches => "sniper_launches"
  | .copyLogs => "copy_logs"
  | .copyGeyser => "copy_geyser"
  | .polymarketMarket => "polymarket_market"
  | .polymarketUser => "polymarket_user"

variable (feed : FeedId) (scope : String)

def cursorKey : String :=
  if scope = "" then feed.asStr else feed.asStr ++ ":" ++ scope

structure FeedCursor where
  feed : FeedId
  scope : String
  position : Option Nat
  token : Option String
  lastEventAt : Option Int
  updatedAt : Int
  processedCount : Int
  duplicateCount : Int
  gapCount : Int
  workerId : String

inductive GapStatus where
  | detected
  | backfilled
  | accepted
  deriving DecidableEq

structure FeedGap where
  feed : FeedId
  scope : String
  /-- The first and the last sequence that is missing. -/
  fromPosition : Nat
  toPosition : Nat
  detectedAt : Int
  workerId : String
  status : GapStatus

inductive CursorAdvance where
  | advanced
  | duplicate
  | gap (g : FeedGap)

def CursorAdvance.shouldProcess : CursorAdvance → Bool
  | .duplicate => false
  | .advanced | .gap _ => true

namespace FeedCursor

def new (feed : FeedId) (scope workerId : String) (now : Int) : FeedCursor where
  feed := feed
  scope := scope
  position := none
  token := none
  lastEventAt := none
  updatedAt := now
  processedCount := 0
  duplicateCount := 0
  gapCount := 0
  workerId := workerId

variable (c : FeedCursor)

def key : String := cursorKey c.feed c.scope

variable (position : Nat) (eventAt : Option Int) (workerId : String)

def missing (workerId : String) (now : Int) : Option FeedGap :=
  match c.position with
  | none => none
  | some last =>
    if last + 1 < position then
      some { feed := c.feed, scope := c.scope, fromPosition := last + 1,
             toPosition := position - 1, detectedAt := now, workerId := workerId,
             status := .detected }
    else none

def behind : Bool :=
  match c.position with
  | none => false
  | some last => position ≤ last

def offer (now : Int) : CursorAdvance × FeedCursor :=
  if c.behind position then (.duplicate, { c with duplicateCount := c.duplicateCount + 1 })
  else
    let moved := { c with
      position := some position
      lastEventAt := eventAt.or c.lastEventAt
      updatedAt := now
      processedCount := c.processedCount + 1
      workerId := workerId }
    match c.missing position workerId now with
    | some g => (.gap g, { moved with gapCount := moved.gapCount + 1 })
    | none => (.advanced, moved)

/-- Only the repetition of the last token is a duplicate. -/
def offerToken (token : String) (eventAt : Option Int) (workerId : String) (now : Int) :
    CursorAdvance × FeedCursor :=
  if c.token = some token then
    (.duplicate, { c with duplicateCount := c.duplicateCount + 1 })
  else
    (.advanced, { c with
      token := some token
      lastEventAt := eventAt.or c.lastEventAt
      updatedAt := now
      processedCount := c.processedCount + 1
      workerId := workerId })

end FeedCursor

/-! ## Keys -/

theorem FeedId.asStr_injective : Function.Injective FeedId.asStr := by
  intro f g h
  cases f <;> cases g <;> first | rfl | exact absurd h (by decide)

theorem FeedId.colon_notMem : ':' ∉ feed.asStr.toList := by
  cases feed <;> decide

private def scopePart (scope : String) : List Char :=
  if scope = "" then [] else ':' :: scope.toList

private theorem scopePart_injective : Function.Injective scopePart := by
  intro scope scope' h
  unfold scopePart at h
  split_ifs at h with hs hs'
  · rw [hs, hs']
  · exact String.toList_inj.mp (List.cons.inj h).2

private theorem toList_cursorKey :
    (cursorKey feed scope).toList = feed.asStr.toList ++ scopePart scope := by
  unfold cursorKey scopePart
  split_ifs
  · rw [List.append_nil]
  · rw [String.toList_append, String.toList_append, List.append_assoc]
    rfl

private theorem takeWhile_cursorKey :
    (cursorKey feed scope).toList.takeWhile (· ≠ ':') = feed.asStr.toList := by
  have hl : ∀ ch ∈ feed.asStr.toList, decide (ch ≠ ':') = true := by
    intro ch hc
    exact decide_eq_true fun h => feed.colon_notMem (h ▸ hc)
  have hsc : (scopePart scope).takeWhile (· ≠ ':') = [] := by
    unfold scopePart
    split_ifs <;> rfl
  rw [toList_cursorKey, List.takeWhile_append_of_pos hl, hsc, List.append_nil]

theorem cursorKey_inj {feed feed' : FeedId} {scope scope' : String}
    (h : cursorKey feed scope = cursorKey feed' scope') : feed = feed' ∧ scope = scope' := by
  have hf : feed = feed' := by
    apply FeedId.asStr_injective
    rw [← String.toList_inj, ← takeWhile_cursorKey feed scope, h, takeWhile_cursorKey]
  have hpa : feed.asStr.toList ++ scopePart scope = feed.asStr.toList ++ scopePart scope' := by
    rw [← toList_cursorKey, h, ← hf, toList_cursorKey]
  exact ⟨hf, scopePart_injective (List.append_cancel_left hpa)⟩

/-! ## What an offer does -/

namespace FeedCursor

variable {c : FeedCursor} {position : Nat} {workerId : String} {now : Int}

theorem lt_of_not_behind (h : c.behind position = false) {last : Nat}
    (hl : c.position = some last) : last < position := by
  unfold behind at h
  rw [hl] at h
  exact Nat.lt_of_not_le (of_decide_eq_false h)

theorem missing_covers (c : FeedCursor) {position : Nat} (workerId : String) (now : Int)
    {last q : Nat} (hl : c.position = some last) (hlo : last < q)
    (hh : q < position) :
    ∃ g, c.missing position workerId now = some g ∧ g.feed = c.feed ∧ g.scope = c.scope ∧
    g.fromPosition ≤ q ∧ q ≤ g.toPosition := by
  have ha : last + 1 < position := by omega
  unfold missing
  rw [hl]
  dsimp only
  rw [if_pos ha]
  refine ⟨_, rfl, rfl, rfl, ?_, ?_⟩
  · show last + 1 ≤ q
    omega
  · show q ≤ position - 1
    omega

theorem missing_lt {g : FeedGap} (h : c.missing position workerId now = some g) :
    g.fromPosition < position ∧ g.toPosition < position := by
  unfold missing at h
  split at h
  · cases h
  · split_ifs at h with ha
    obtain rfl := Option.some.inj h
    constructor
    · exact ha
    · show position - 1 < position
      omega

variable (c position) (eventAt : Option Int) (workerId : String) (now : Int)

/-- An offer is dropped, or the cursor moves to it and the range in between is reported. -/
inductive Offered : CursorAdvance × FeedCursor → Prop
  | dropped {c' : FeedCursor} (hkey : c'.key = c.key) (hpos : c'.position = c.position) :
      Offered (.duplicate, c')
  | moved {advance : CursorAdvance} {c' : FeedCursor} (hkey : c'.key = c.key)
      (hpos : c'.position = some position) (hbehind : c.behind position = false)
      (hgap : advance = (c.missing position workerId now).elim .advanced .gap) :
      Offered (advance, c')

theorem offered : c.Offered position workerId now (c.offer position eventAt workerId now) := by
  unfold offer
  split_ifs with hbe
  · exact .dropped rfl rfl
  · cases hm : c.missing position workerId now with
    | none | some g => exact .moved rfl rfl (Bool.eq_false_iff.mpr hbe) (by rw [hm]; rfl)

theorem offerToken_key (token : String) :
    (c.offerToken token eventAt workerId now).2.key = c.key := by
  unfold offerToken
  split_ifs <;> rfl

theorem offerToken_position (token : String) :
    (c.offerToken token eventAt workerId now).2.position = c.position := by
  unfold offerToken
  split_ifs <;> rfl

end FeedCursor

end SniperBot.Ha
