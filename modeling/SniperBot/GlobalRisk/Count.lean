import SniperBot.GlobalRisk.Caps

/-!
# The cap on open positions

An entry that adds to a position the ledger shows as open is not held against the cap.
For any other the cap is compared with the number of open positions in the ledger.
The snapshot of a decision counts the entries in flight as well, but the comparison
does not look at that count.
-/

namespace SniperBot.GlobalRisk

open Lib.Runs Lib.Interleaving

def HasSlot (S : Setting) (req : GlobalRiskRequest) : Prop := 0 < S.cfg.maxOpenPositions →
    S.isOpen req.key = true ∨ S.view.openPositions < S.cfg.maxOpenPositions

def Slotted (S : Setting) : Section → Prop
  | .date ask _ _ _ | .create ask _ _ | .reserve ask _ _ => HasSlot S ask.req
  | _ => True

variable {S : Setting} {c : Cluster} {k k' : Section} {s t : State Cluster Section}
  {a : Label Section Reply}

theorem Slotted.next (hk : Slotted S k) (hnext : (act S k c).2 = .inl k') : Slotted S k' := by
  cases k with
  | judge ask h ts id =>
    simp only [act] at hnext
    split at hnext
    · next snapshot hd =>
      cases hnext
      exact (admits_of_decideInner hd).slot
    · cases hnext
      trivial
  | date ask h id ref =>
    cases hnext
    exact hk
  | create ask h res =>
    simp only [act] at hnext
    split at hnext
    · cases hnext
      trivial
    · split at hnext
      · cases hnext
        trivial
      · cases hnext
        exact hk
  | acquire ask retries =>
    simp only [act] at hnext
    split at hnext
    · cases hnext
      trivial
    · split at hnext
      · cases hnext
        trivial
      · split at hnext <;> cases hnext <;> trivial
  | leave ask h verdict =>
    simp only [act] at hnext
    split at hnext <;> cases hnext
    trivial
  | gate | purge | select | release =>
    simp only [act] at hnext
    split at hnext <;> cases hnext <;> trivial
  | install | number | reserve | refuse =>
    cases hnext
    trivial
  | wait | unlock | deleteRow => cases hnext

theorem slotted_step (hs : Relies (fun _ => Slotted S) s) (h : Step (act S) IsCall s a t) :
    Relies (fun _ => Slotted S) t := by
  refine hs.step (C := fun _ _ _ => True) ?_ h ?_ ?_ ?_
  · cases a with
    | call k => trivial
    | act k r => exact fun _ _ => trivial
  · intro k hk
    cases hk <;> trivial
  · intro k _ k' hse hnext
    exact hse.next hnext
  · intro _ _ k' _ ho _
    exact ho

theorem slot_of_approves (hsl : Relies (fun _ => Slotted S) s)
    (h : Step (act S) IsCall s a t) {req : GlobalRiskRequest} (ha : Approves req ⟨s, a, t⟩) :
    HasSlot S req ∧ t.shared.live.length ≤ s.shared.live.length + 1 := by
  rcases h.shared_cases with ⟨_, rfl, -⟩ | ⟨k, hk, rfl, hsh⟩
  · exact ha.elim
  cases k with
  | reserve ask h res =>
    have hr : ask.req = req := ha
    subst hr
    refine ⟨hsl _ hk, ?_⟩
    have hl : t.shared.live = s.shared.live ++ [res].filter (s.shared.now < ·.expiresAt) := by
      rw [hsh]
      show ((s.shared.leases ++ [(⟨ask.replica, res⟩ : Lease)]).map Lease.res).filter _ = _
      rw [List.map_append, List.filter_append]
      rfl
    rw [hl, List.length_append]
    exact Nat.add_le_add_left (List.length_filter_le _ [res]) _
  | _ => exact ha.elim

private def oneSlot (held : List PositionKey) : Setting where
  decisionId req _ _ := req.asset
  cfg := { (default : GlobalRiskConfig) with maxOpenPositions := 1 }
  view := { (default : PortfolioView) with openPositions := held.length }
  isOpen key := key ∈ held
  venueKilled _ := false
  strategyKilled _ := false

private def entryInto (asset : String) : Ask where
  replica := "a"
  req := ⟨.sniper, .paper, "w", "s", asset, "USDC", 1, .paper⟩
  ctx := ⟨false, true, true, 0⟩
  db := ⟨0, false, false, false, false, false⟩

private def noEntries : Cluster := ⟨0, none, 0, [], fun _ => ⟨false, 0, []⟩, []⟩

private def decision (asset : String) : List (Move Section) :=
  .call (.gate (entryInto asset)) :: List.replicate 12 (.go 0)

private theorem allowed_decisions (assets : List String) :
    ∀ m ∈ assets.flatMap decision, m.Allowed IsCall := by
  have ho : ∀ asset, ∀ m ∈ decision asset, m.Allowed IsCall := by
    simp [decision, Move.Allowed, IsCall.decide]
  intro m hm
  obtain ⟨asset, -, hm⟩ := List.mem_flatMap.mp hm
  exact ho asset m hm

/-- Two entries into different assets are both approved, since the first, in flight, is
counted in the snapshot but not in the comparison. -/
theorem entries_in_flight_exceed_cap : ∃ tr t, 0 < (oneSlot []).cfg.maxOpenPositions ∧
    Run (Step (act (oneSlot [])) IsCall) ⟨noEntries, []⟩ tr t ∧
    ∃ e ∈ tr, Approves (entryInto "B").req e ∧ (oneSlot []).isOpen (entryInto "B").req.key = false ∧
      (oneSlot []).cfg.maxOpenPositions <
        (oneSlot []).view.openPositions + e.post.shared.live.length := by
  refine (exists_run_of_follow (["A", "B"].flatMap decision) (allowed_decisions _) ?_).imp
    fun tr => Exists.imp fun t h => ⟨by decide, h⟩
  decide +kernel

end SniperBot.GlobalRisk
