import SniperBot.Lib.Interleaving
import SniperBot.Positions.Book

/-!
# Merging shared rows into the book

`merge_positions` reads the local row of an id, decides, and writes the shared row
by `upsert_position`, which takes the lock again. A position may be closed in
between. `Section` is where a call stands between two sections that hold a lock.
-/

namespace SniperBot.Positions

open Lib.Runs Lib.Interleaving

/-- On whose behalf a row is written: of a caller, or of a merge with rows to go and
its two counters. -/
inductive Writer where
  | direct
  | merge (rest : List Position) (inserted refreshed : Nat)
  deriving DecidableEq

inductive Section where
  | mergeRead (rows : List Position) (inserted refreshed : Nat)
  | upsertRead (p : Position) (writer : Writer)
  | upsertInsert (p : Position) (isNew : Bool) (writer : Writer)
  | upsertOrder (id : String) (writer : Writer)
  | close (id : String) (status : PositionStatus) (reason : String) (now : Int)
  deriving DecidableEq

inductive Reply where
  | upserted
  | merged (inserted refreshed : Nat)
  | closed (result : Option (Position × ℚ × ℚ))

def Writer.resume : Writer → Section ⊕ Reply
  | .direct => .inr .upserted
  | .merge rest inserted refreshed => .inl (.mergeRead rest inserted refreshed)

/-- A local row gives way to a shared one that is newer, unless it is terminal. -/
def givesWay (row shared : Position) : Bool :=
  shared.updatedAt > row.updatedAt && (row.status == .opened || row.status == .closing)

def act : Section → Book → Book × (Section ⊕ Reply)
  | .mergeRead [] inserted refreshed, b => (b, .inr (.merged inserted refreshed))
  | .mergeRead (p :: rest) inserted refreshed, b =>
    match b.position p.id with
    | none => (b, .inl (.upsertRead p (.merge rest (inserted + 1) refreshed)))
    | some row =>
      if givesWay row p then (b, .inl (.upsertRead p (.merge rest inserted (refreshed + 1))))
      else (b, .inl (.mergeRead rest inserted refreshed))
  | .upsertRead p writer, b => (b, .inl (.upsertInsert p (b.position p.id).isNone writer))
  | .upsertInsert p isNew writer, b =>
    (b.insert p, if isNew then .inl (.upsertOrder p.id writer) else writer.resume)
  | .upsertOrder id writer, b => (b.pushOrder id, writer.resume)
  | .close id status reason now, b =>
    ((b.closePosition id status reason now).1,
      .inr (.closed (b.closePosition id status reason now).2))

inductive IsCall : Section → Prop
  | merge (rows : List Position) : IsCall (.mergeRead rows 0 0)
  | upsert (p : Position) : IsCall (.upsertRead p .direct)
  | close (id : String) (status : PositionStatus) (reason : String) (now : Int) :
      IsCall (.close id status reason now)

namespace Section

def ofMerge : Section → Bool
  | .mergeRead _ _ _ => true
  | .upsertRead _ (.merge _ _ _) | .upsertInsert _ _ (.merge _ _ _)
  | .upsertOrder _ (.merge _ _ _) => true
  | _ => false

def judging : Section → Option String
  | .upsertRead p (.merge _ _ _) | .upsertInsert p _ (.merge _ _ _) => some p.id
  | _ => none

def closing : Section → Option String
  | .upsertInsert p _ _ => if p.status.isTerminal then some p.id else none
  | .close id status _ _ => if status.isTerminal then some id else none
  | _ => none

end Section

/-! ## One section -/

theorem not_terminal_of_givesWay {row p : Position} (h : givesWay row p = true) :
    row.status.isTerminal = false := by
  simp only [givesWay, Bool.and_eq_true, Bool.or_eq_true, beq_iff_eq] at h
  rcases h.2 with h | h <;> rw [h] <;> rfl

variable {b : Book} {k k' : Section} {id : String}

open Section

theorem terminalAt_act (h : (act k b).1.TerminalAt id) : b.TerminalAt id ∨ k.closing = some id := by
  cases k with
  | mergeRead rows inserted refreshed =>
    cases rows with
    | nil => exact .inl h
    | cons p rest =>
      simp only [act] at h
      split at h
      · exact .inl h
      · split at h <;> exact .inl h
  | upsertRead p writer | upsertOrder id' writer => exact .inl h
  | upsertInsert p isNew writer =>
    have h := (Book.terminalAt_insert p).mp h
    split at h
    · next hi => exact .inr (by simp [closing, hi, h])
    · exact .inl h
  | close id' status reason now =>
    have h := Book.terminalAt_closePosition.mp h
    split at h
    · next hi => exact .inr (by simp [closing, hi, h.1])
    · exact .inl h

/-- What a merge relies on between reading a row and writing it. -/
def RowIsLive (b : Book) (k : Section) : Prop := ∀ id ∈ k.judging, ¬ b.TerminalAt id

theorem rowIsLive_of_isCall (hk : IsCall k) : RowIsLive b k := by
  cases hk <;> simp [RowIsLive, judging]

theorem not_judging_of_resume {writer : Writer} (h : writer.resume = .inl k') :
    k'.judging = none := by
  cases writer with
  | direct => cases h
  | merge rest inserted refreshed =>
    obtain rfl := Sum.inl.inj h
    rfl

theorem rowIsLive_next (h : RowIsLive b k) (hnext : (act k b).2 = .inl k') :
    RowIsLive (act k b).1 k' := by
  cases k with
  | mergeRead rows inserted refreshed =>
    cases rows with
    | nil => cases hnext
    | cons p rest =>
      simp only [act] at hnext ⊢
      split at hnext
      · next hr =>
        obtain rfl := Sum.inl.inj hnext
        simp [RowIsLive, judging, Book.TerminalAt, hr]
      · next row hr =>
        split at hnext
        · next hw =>
          obtain rfl := Sum.inl.inj hnext
          simp [RowIsLive, judging, Book.TerminalAt, hr, hw, not_terminal_of_givesWay hw]
        · obtain rfl := Sum.inl.inj hnext
          simp [RowIsLive, judging]
  | upsertRead p writer =>
    obtain rfl := Sum.inl.inj hnext
    cases writer with
    | direct => simp [RowIsLive, judging]
    | merge rest inserted refreshed => exact h
  | upsertInsert p isNew writer =>
    -- the row is written, and nothing is judged any more
    have hn : k'.judging = none := by
      simp only [act] at hnext
      split at hnext
      · obtain rfl := Sum.inl.inj hnext
        rfl
      · exact not_judging_of_resume hnext
    simp [RowIsLive, hn]
  | upsertOrder id' writer => simp [RowIsLive, not_judging_of_resume hnext]
  | close id' status reason now => cases hnext

theorem terminalAt_act_of_merge (h : RowIsLive b k) (hm : k.ofMerge = true)
    (hte : b.TerminalAt id) : (act k b).1.TerminalAt id := by
  cases k with
  | mergeRead rows inserted refreshed =>
    cases rows with
    | nil => exact hte
    | cons p rest =>
      simp only [act]
      split
      · exact hte
      · split <;> exact hte
  | upsertRead p writer | upsertOrder id' writer => exact hte
  | upsertInsert p isNew writer =>
    cases writer with
    | direct => cases hm
    | merge rest inserted refreshed =>
      have hn : id ≠ p.id := by
        intro hi
        exact h p.id rfl (hi ▸ hte)
      show (b.insert p).TerminalAt id
      rwa [Book.terminalAt_insert, if_neg hn]
  | close id' status reason now => cases hm

/-! ## Whole runs -/

/-- A section may not make a row terminal that a merge has read and not yet written. -/
def Considerate (_ : Book) (k k' : Section) : Prop := ∀ id ∈ k.closing, k'.judging ≠ some id

instance (b : Book) (k k' : Section) : Decidable (Considerate b k k') :=
  inferInstanceAs (Decidable (∀ id ∈ k.closing, k'.judging ≠ some id))

variable {s t : State Book Section} {a : Label Section Reply}
  {tr : List (Entry (State Book Section) (Label Section Reply))}

theorem relies_step (h : Relies RowIsLive s) (ha : Apart Considerate ⟨s, a, t⟩)
    (hs : Step act IsCall s a t) : Relies RowIsLive t := by
  refine h.step ha hs (fun _ => rowIsLive_of_isCall) (fun _ _ _ => rowIsLive_next) ?_
  intro k _ k' _ hk' hC id hi hte
  rcases terminalAt_act hte with hbe | hc
  · exact hk' id hi hbe
  · exact hC id hc hi

section

variable (id : String) (e : Entry (State Book Section) (Label Section Reply))

def Reopens : Prop :=
  match e.label with
  | .call _ => False
  | .act k _ => k.ofMerge = true ∧ e.pre.shared.TerminalAt id ∧ ¬ e.post.shared.TerminalAt id

instance  : Decidable (Reopens id e) := by
  unfold Reopens
  split <;> infer_instance

end

/-- In every interleaving in which no row is closed under a merge that has read it,
no merge ever reopens what the book shows as terminal. -/
theorem merge_never_reopens {b : Book} (hr : Run (Step act IsCall) ⟨b, []⟩ tr t)
    (hapart : ∀ e ∈ tr, Apart Considerate e) : ∀ e ∈ tr, ∀ id, ¬ Reopens id e := by
  intro e he id hre
  have hst : Relies RowIsLive (⟨b, []⟩ : State Book Section) := by
    intro k hk
    cases hk
  obtain ⟨hrel, hs⟩ := hr.invariant_before (fun _ _ _ h hC hs => relies_step h hC hs) hapart hst he
  obtain ⟨pre, label, post⟩ := e
  cases hs with
  | call => exact hre
  | act k =>
    obtain ⟨hm, hte, hn⟩ := hre
    have hk := hrel k (List.mem_append_right _ List.mem_cons_self)
    exact hn (terminalAt_act_of_merge hk hm hte)

/-! ## A close that a merge does not see -/

private def row (status : PositionStatus) (updatedAt : Int) : Position where
  id := "p1"
  updatedAt := updatedAt
  closedAt := none
  source := .sniper
  status := status
  symbol := "TOKEN"
  qty := 100
  avgEntry := 1 / 10
  costBasis := 10
  realizedQuote := 0
  realizedPnlQuote := some 0
  lastMark := 1 / 10
  reasonClosed := none

private def held : Book := Book.empty.insert (row .opened 10) |>.pushOrder "p1"

private def merging : Section := .mergeRead [row .opened 20] 0 0

private def exiting : Section := .close "p1" .closed "take profit" 30

private def inTurn : List (Move Section) :=
  [.call merging, .go 0, .go 0, .go 0, .go 0, .call exiting, .go 0, .call merging, .go 0, .go 0]

private def crossed : List (Move Section) :=
  [.call merging, .go 0, .call exiting, .go 0, .go 0, .go 0]

theorem merge_never_reopens_inTurn :
    ∃ tr t, Run (Step act IsCall) ⟨held, []⟩ tr t ∧ (∀ e ∈ tr, Apart Considerate e) ∧
      t.shared.TerminalAt "p1" ∧ ∀ e ∈ tr, ∀ id, ¬ Reopens id e := by
  obtain ⟨tr, t, hr, ha, hte⟩ : ∃ tr t, Run (Step act IsCall) ⟨held, []⟩ tr t ∧
      (∀ e ∈ tr, Apart Considerate e) ∧ t.shared.TerminalAt "p1" :=
    exists_run_of_follow inTurn (by simp [inTurn, Move.Allowed, merging, exiting, IsCall.merge,
      IsCall.close]) (by decide +kernel)
  exact ⟨tr, t, hr, ha, hte, merge_never_reopens hr ha⟩

/-- A close that runs between the merge's reading and its writing is undone. -/
theorem merge_reopens_closed :
    ∃ tr t, Run (Step act IsCall) ⟨held, []⟩ tr t ∧ (∃ e ∈ tr, Reopens "p1" e) ∧
      ¬ t.shared.TerminalAt "p1" :=
  exists_run_of_follow crossed (by simp [crossed, Move.Allowed, merging, exiting, IsCall.merge,
    IsCall.close]) (by decide +kernel)

end SniperBot.Positions
