import SniperBot.Risk.Limit

/-!
# The exposure cap of a module

A check reads the entries in flight first and the exposure of the open positions after that, so an
entry that completes in between is counted twice rather than missed. Entries in flight count with
what they asked for, in the quote asset of the check only.
-/

namespace SniperBot.Risk

open Lib.Runs Lib.Interleaving Lib.Capacity Multiset Stage
open Positions (Book BotModule Position)
open GlobalRisk (RiskEntryReservation Venue quoteAssetFor)

/-- What an entry that has passed and has not recorded its position may take up. -/
def Stage.demand (R : Rules) (m : BotModule) : Stage → Option (Demand ℚ)
  | .passed _ res reserved =>
    if res.module = m then some (.asked res.requestedQuote reserved) else none
  | .measured ask res reserved own =>
    match R.finish ask reserved own with
    | .ok decision => if res.module = m then some (.granted decision.sizedQuote) else none
    | .error _ => none
  | .approved p => if p.res.module = m ∧ p.recorded = false then some (.granted p.sized) else none
  | _ => none

def demands (R : Rules) (m : BotModule) (s : State Desk Section) : Multiset (Demand ℚ) :=
  (stages s).filterMap (demand R m)

def Desk.pendingSize (d : Desk) (m : BotModule) : ℚ := ((d.pending m).map Approval.sized).sum

def Settles (m : BotModule) (quote : String) (e : Event) : Prop :=
  match e.label with
  | .call (.check ask) => ask.req.module = m → quoteAssetFor ask.req.venue = quote
  | _ => True

instance (m : BotModule) (quote : String) : (e : Event) → Decidable (Settles m quote e)
  | ⟨_, .call (.check _), _⟩ => inferInstanceAs (Decidable (_ → _))
  | ⟨_, .call (.wait _), _⟩ | ⟨_, .call (.gate _), _⟩ | ⟨_, .call (.number _), _⟩
  | ⟨_, .call (.judge ..), _⟩ | ⟨_, .call (.date ..), _⟩ | ⟨_, .call (.reserve ..), _⟩
  | ⟨_, .call (.leave ..), _⟩ | ⟨_, .call (.positions ..), _⟩ | ⟨_, .call (.usage ..), _⟩
  | ⟨_, .call (.exposure ..), _⟩ | ⟨_, .call (.approve ..), _⟩ | ⟨_, .call (.drop ..), _⟩
  | ⟨_, .call (.look ..), _⟩ | ⟨_, .call (.record ..), _⟩ | ⟨_, .call (.push ..), _⟩
  | ⟨_, .call (.release _), _⟩ | ⟨_, .call (.close ..), _⟩ | ⟨_, .act .., _⟩ => .isTrue trivial

variable {R : Rules} {s t : State Desk Section} {a : Label Section Reply} {m : BotModule}
  {x y : Stage} {rest : Multiset Stage} {quote : String}

/-! ## One quote asset -/

def Section.ask : Section → Option Ask
  | .check ask | .gate ask | .number ask | .judge ask _ _ | .date ask _ _ | .reserve ask _
  | .leave ask _ | .positions ask _ | .usage ask _ _ | .exposure ask _ _ | .approve ask _ _ _
  | .drop ask _ _ => some ask
  | _ => none

theorem ask_of_next {k k' : Section} {d : Desk} {ask : Ask} (hnext : (act R k d).2 = .inl k')
    (ha : k'.ask = some ask) : k.ask = some ask := by
  cases k with
  | check _ | judge _ _ _ | usage _ _ _ | approve _ _ _ _ | gate _ =>
    simp only [act] at hnext
    split at hnext <;> cases hnext <;> exact ha
  | leave _ outcome =>
    cases outcome with
    | error code => cases hnext
    | ok res =>
      simp only [act] at hnext
      split at hnext <;> cases hnext <;> exact ha
  | number _ | date _ _ _ | reserve _ _ | positions _ _ | exposure _ _ _ =>
    cases hnext
    exact ha
  | look _ _ | push _ _ =>
    cases hnext
    cases ha
  | record _ _ isNew =>
    simp only [act] at hnext
    split at hnext
    · cases hnext
      cases isNew <;> cases ha
    · cases hnext
  | release _ =>
    simp only [act] at hnext
    split at hnext <;> cases hnext
  | wait _ | drop _ _ _ | close _ _ _ => cases hnext

structure Uniform (m : BotModule) (quote : String) (s : State Desk Section) : Prop where
  asks : ∀ k ∈ s.running, ∀ ask, k.ask = some ask → ask.req.module = m →
    quoteAssetFor ask.req.venue = quote
  reservations : ∀ x ∈ stages s, ∀ res, x.reservation = some res → res.module = m →
    res.quoteAsset = quote

theorem Uniform.step (hun : Uniform m quote s) (hse : Settles m quote ⟨s, a, t⟩)
    (hs : Step (act R) IsCall s a t) : Uniform m quote t := by
  constructor
  · intro k' hk' ask ha hm
    rcases hs.multiset_cases with ⟨k, rfl, hk, -, hru⟩ | ⟨k, rest, rfl, -, hpr, hpo⟩
    · rw [← mem_coe, hru, mem_cons] at hk'
      rcases hk' with rfl | hk'
      · cases hk with
        | check ask' =>
          obtain rfl := Option.some.inj ha
          exact hse hm
        | _ => cases ha
      · exact hun.asks k' hk' ask ha hm
    · have hk : k ∈ s.running := by
        rw [← mem_coe, hpr]
        exact mem_cons_self k rest
      rw [← mem_coe, hpo, mem_add] at hk'
      rcases hk' with hk' | hk'
      · have hnext : (act R k s.shared).2 = .inl k' := by
          cases hr : (act R k s.shared).2 with
          | inl k'' =>
            rw [hr] at hk'
            rw [List.mem_singleton.mp hk']
          | inr r =>
            rw [hr] at hk'
            cases hk'
        exact hun.asks k hk ask (ask_of_next hnext ha) hm
      · refine hun.asks k' ?_ ask ha hm
        rw [← mem_coe, hpr]
        exact mem_cons_of_mem hk'
  · intro y hy res hre hm
    rcases reservation_origin hs hy hre with ⟨x, hx, hxr⟩ | ⟨ask, id, ref, hx, -, rfl⟩
    · exact hun.reservations x hx res hxr hm
    · rcases mem_stages.mp hx with ⟨k, hk, hst⟩ | ⟨_, _, he⟩
      · refine hun.asks k hk ask ?_ hm
        cases k with
        | date ask' id' ref' =>
          obtain ⟨rfl, -⟩ := accepted.inj (Option.some.inj hst)
          rfl
        | leave ask' outcome => cases outcome <;> cases hst
        | _ => cases hst
      · cases he

theorem uniform_idle {d : Desk} (ha : d.approvals = []) : Uniform m quote ⟨d, []⟩ := by
  constructor
  · intro k hk
    cases hk
  · intro x hx
    rw [stages_idle ha] at hx
    exact absurd hx (notMem_zero x)

/-! ## What the entries in flight add up to -/

theorem weight_le_requested (hx : x.Filed R) {d : Demand ℚ} (hd : x.demand R m = some d) :
    ∃ res, x.booked = some res ∧ res.module = m ∧ d.weight ≤ res.requestedQuote := by
  cases x with
  | passed ask res reserved =>
    by_cases hm : res.module = m
    · obtain rfl := Option.some.inj ((if_pos hm).symm.trans hd)
      exact ⟨res, rfl, hm, le_rfl⟩
    · cases (if_neg hm).symm.trans hd
  | measured ask res reserved own =>
    simp only [demand] at hd
    split at hd
    · next decision hf =>
      by_cases hm : res.module = m
      · obtain rfl := Option.some.inj ((if_pos hm).symm.trans hd)
        refine ⟨res, rfl, hm, ?_⟩
        rw [hx.1.requestedQuote_eq]
        exact (granted_of_finish hf).le_requested
      · cases (if_neg hm).symm.trans hd
    · cases hd
  | approved p =>
    by_cases hp : p.res.module = m ∧ p.recorded = false
    · obtain rfl := Option.some.inj ((if_pos hp).symm.trans hd)
      exact ⟨p.res, rfl, hp.1, hx.2.2⟩
    · cases (if_neg hp).symm.trans hd
  | named | accepted | dated | held | looked => cases hd

theorem requested_nonneg (hx : x.Filed R) {res : RiskEntryReservation}
    (hr : x.booked = some res) : 0 ≤ res.requestedQuote := by
  cases x with
  | named | accepted | dated => cases hr
  | approved p =>
    obtain rfl := Option.some.inj hr
    exact (hx.2.1.trans_le hx.2.2).le
  | held | looked | passed | measured =>
    obtain rfl := Option.some.inj hr
    exact hx.2.le

theorem sum_demand_le (hf : ∀ x ∈ rest, x.Filed R) :
    ((rest.filterMap (demand R m)).map Demand.weight).sum ≤
    ((bookedFor m rest).map RiskEntryReservation.requestedQuote).sum := by
  induction rest using Multiset.induction_on with
  | empty => exact le_rfl
  | cons x rest ih =>
    have ih := ih fun y hy => hf y (mem_cons_of_mem hy)
    have hx := hf x (mem_cons_self x rest)
    cases hd : x.demand R m with
    | some d =>
      obtain ⟨res, hr, hm, hle⟩ := weight_le_requested hx hd
      rw [filterMap_cons_some _ _ _ hd, bookedFor_cons hr hm, map_cons,
        map_cons, sum_cons, sum_cons]
      linarith
    | none =>
      rw [filterMap_cons_none _ _ hd]
      cases hr : x.booked with
      | none =>
        rw [bookedFor, filterMap_cons_none _ _ hr]
        exact ih
      | some res =>
        by_cases hm : res.module = m
        · rw [bookedFor_cons hr hm, map_cons, sum_cons]
          have := requested_nonneg hx hr
          linarith
        · rw [bookedFor, filterMap_cons_some _ _ _ hr, filter_cons_of_neg
            (p := fun res : RiskEntryReservation => res.module = m) _ hm]
          exact ih

/-! ## Steps of the budget -/

theorem priced_step (hb : Booked R s) (hpr : s.shared.book.Priced)
    (hs : Step (act R) IsCall s a t) : t.shared.book.Priced := by
  cases moves_of_step hs with
  | quiet _ _ _ hk => exact hk hpr
  | numbered _ _ hsa =>
    have hbo : t.shared.book = s.shared.book := hsa.book
    rwa [hbo]
  | recorded fill p rest _ _ hpre _ hsh =>
    have hf : p.res.organization = R.tenant ∧ 0 < p.sized ∧ p.sized ≤ p.res.requestedQuote :=
      hb.filed (.approved p) (hpre ▸ mem_cons_self _ rest)
    rw [hsh]
    exact hpr.insert hf.2.1.le
  | waited _ _ _ _ hsh | accepted _ _ _ _ _ _ hsh | dated _ _ _ _ _ _ hsh
  | reserved _ _ _ _ _ hsh | looked _ _ _ _ _ hsh
  | passed _ _ _ _ _ _ _ _ _ _ _ hsh | measured _ _ _ _ _ _ hsh
  | approved _ _ _ _ _ _ _ _ _ _ hsh | refused _ _ _ _ _ _ _ hsh
  | dropped _ _ _ hsh | released _ _ _ _ _ hsh =>
    rw [hsh]
    exact hpr

theorem exposure_position {p : Approval} (hp : 0 < p.sized) (fill : Fill) (now : Int) :
    (p.position fill now).exposure = p.sized := by
  show max p.sized (fill.qty * (p.sized / fill.qty)) = p.sized
  refine max_eq_left ?_
  by_cases hq : fill.qty = 0
  · rw [hq, zero_mul]
    exact hp.le
  · exact (mul_div_cancel₀ p.sized hq).le

theorem demands_cons (hs : stages s = x ::ₘ rest) {d : Demand ℚ} (hd : x.demand R m = some d) :
    demands R m s = d ::ₘ rest.filterMap (demand R m) := by
  rw [demands, hs, filterMap_cons_some _ _ _ hd]

theorem demands_cons_none (hs : stages s = x ::ₘ rest) (hd : x.demand R m = none) :
    demands R m s = rest.filterMap (demand R m) := by
  rw [demands, hs, filterMap_cons_none _ _ hd]

variable {cap : ℚ}

theorem fair_swap (hf : Fair cap (s.shared.book.heldExposure m) (demands R m s))
    (hs : stages s = x ::ₘ rest) (ht : stages t = y ::ₘ rest)
    (hd : y.demand R m = x.demand R m ∨ y.demand R m = none)
    (hus : t.shared.book.heldExposure m ≤ s.shared.book.heldExposure m) :
    Fair cap (t.shared.book.heldExposure m) (demands R m t) := by
  refine hf.mono ?_ hus
  rw [demands, demands, hs, ht]
  exact filterMap_cons_le hd

theorem fair_step (hb : Booked R s) (hu : Unexpired m s) (hun : Uniform m quote s)
    (hpr : s.shared.book.Priced)
    (hf : Fair (R.risk.exposureCap m) (s.shared.book.heldExposure m) (demands R m s))
    (hs : Step (act R) IsCall s a t) :
    Fair (R.risk.exposureCap m) (t.shared.book.heldExposure m) (demands R m t) := by
  cases moves_of_step hs with
  | quiet hle _ hh =>
    refine hf.mono (filterMap_le_filterMap _ hle) ?_
    exact Book.sum_exposure_le (hh m) fun p hp => hpr.of_mem_held hp
  | waited millis r _ hst hsh =>
    refine hf.mono ?_ (by rw [hsh])
    rw [demands, demands, hst]
  | numbered req hst hsa =>
    have hbo : t.shared.book = s.shared.book := hsa.book
    refine hf.mono ?_ (by rw [hbo])
    rw [demands, demands, hst, filterMap_cons_none _ _ rfl]
  | accepted _ _ _ _ hpre hpo hsh | dated _ _ _ _ hpre hpo hsh
  | reserved _ _ _ hpre hpo hsh | looked _ _ _ hpre hpo hsh
  | refused _ _ _ _ _ hpre hpo hsh =>
    exact fair_swap hf hpre hpo (.inr rfl) (congrArg (fun d : Desk => d.book.heldExposure m) hsh).le
  | passed ask res opened count reserved symbol rest hpre hpo husage _ hsh =>
    have hse : looked ask res opened ∈ stages s := hpre ▸ mem_cons_self _ _
    have hfi : IsRecord R ask res ∧ 0 < res.requestedQuote := hb.filed _ hse
    by_cases hm : res.module = m
    · have ha : ask.req.module = m := hfi.1.module_eq.symm.trans hm
      have hi : ∀ z ∈ rest, z ∈ stages s := fun z hz => hpre ▸ mem_cons_of_mem hz
      have hqu : ∀ res' ∈ bookedFor m rest, res'.quoteAsset = quoteAssetFor ask.req.venue := by
        intro res' hr'
        obtain ⟨⟨z, hz, hboo⟩, hm'⟩ := mem_bookedFor.mp hr'
        have ho := hun.reservations z (hi z hz) res' (reservation_of_booked hboo) hm'
        have how := hun.reservations _ hse res rfl hm
        rw [ho, ← how]
        exact hfi.1.quoteAsset_eq
      rw [ha] at husage
      have hot := (sum_demand_le (m := m) fun z hz => hb.filed z (hi z hz)).trans
        (sum_bookedFor_le hb hu hpre husage hqu)
      rw [demands_cons_none hpre rfl] at hf
      rw [demands_cons hpo (d := .asked res.requestedQuote reserved) (if_pos hm), hsh]
      exact hf.enqueue hfi.2.le hot
    · exact fair_swap hf hpre hpo (.inr (if_neg hm)) (by rw [hsh])
  | measured ask res reserved rest hpre hpo hsh =>
    have hse : passed ask res reserved ∈ stages s := hpre ▸ mem_cons_self _ _
    have hfi : IsRecord R ask res ∧ 0 < res.requestedQuote := hb.filed _ hse
    let own := s.shared.book.openExposure ask.req.module
    by_cases hm : res.module = m
    · have ha : ask.req.module = m := hfi.1.module_eq.symm.trans hm
      cases hfin : R.finish ask reserved own with
      | error code =>
        exact fair_swap hf hpre hpo (.inr (by simp [demand, own, hfin])) (by rw [hsh])
      | ok decision =>
        have hg := granted_of_finish hfin
        have how : s.shared.book.heldExposure m ≤ own := by
          show _ ≤ s.shared.book.openExposure ask.req.module
          rw [ha]
          exact hpr.heldExposure_le
        have hfit := hg.fits
        rw [ha] at hfit
        rw [demands_cons hpre (d := .asked res.requestedQuote reserved) (if_pos hm)] at hf
        rw [demands_cons hpo (d := .granted decision.sizedQuote)
          (by simp [demand, own, hfin, hm]), hsh]
        refine hf.settle hg.pos.le ?_ (by linarith)
        rw [hfi.1.requestedQuote_eq]
        exact hg.le_requested
    · refine fair_swap hf hpre hpo (.inr ?_) (by rw [hsh])
      simp only [demand]
      split
      · exact if_neg hm
      · rfl
  | approved ask res reserved own decision rest _ hpre hpo hfin hsh =>
    refine fair_swap hf hpre hpo (.inl ?_) (by rw [hsh])
    simp [demand, hfin]
  | dropped ask res hpre hsh | released _ _ _ _ hpre hsh =>
    refine hf.mono ?_ (by rw [hsh]; rfl)
    rw [demands, demands, hpre]
    exact filterMap_le_filterMap _ (le_cons_self _ _)
  | recorded fill p rest hp _ hpre hpo hsh =>
    have hfi : p.res.organization = R.tenant ∧ 0 < p.sized ∧ p.sized ≤ p.res.requestedQuote :=
      hb.filed (.approved p) (hpre ▸ mem_cons_self _ rest)
    obtain ⟨hh, ho⟩ := held_recorded (m := m) (congrArg Desk.book hsh)
    by_cases hm : p.res.module = m
    · rw [demands_cons hpre (d := .granted p.sized) (if_pos ⟨hm, hp⟩)] at hf
      rw [demands_cons_none hpo (by simp [demand])]
      refine hf.use ?_
      have hsu := Book.sum_exposure_le hh fun q hq => by
        rcases mem_cons.mp hq with rfl | hq
        · exact hfi.2.1.le
        · exact hpr.of_mem_held hq
      rw [map_cons, exposure_position hfi.2.1] at hsu
      rw [add_comm]
      exact hsu
    · refine fair_swap hf hpre hpo (.inr (by simp [demand])) ?_
      exact Book.sum_exposure_le (ho hm) fun q hq => hpr.of_mem_held hq

/-! ## The cap over whole runs -/

private def oneTenth : Rules where
  decisionId _ _ n := String.ofList (List.replicate n '#')
  risk := { (default : RiskConfig) with
    maxOpenPositions := 2, maxPositionFraction := 1, maxPositionQuote := 1 / 10,
    copyMaxTotalExposureQuote := 1 / 10 }
  tenant := none

private def entryOn (venue : Venue) (symbol : String) : Ask where
  req := ⟨.copy, venue, symbol, 1 / 10, 10, 100, none, none, none, "w", "s"⟩
  readings := quietReadings

private def first : List (Move Section) :=
  .call (.check (entryOn .pumpFun "A")) :: List.replicate 11 (.go 0)

/-- The first entry outlasts its reservation, and records its position after a second check
has read the exposure. -/
private def unseen : List (Move Section) := first ++ [.call (.wait 300000), .go 0] ++
    .call (.check (entryOn .pumpFun "B")) :: List.replicate 10 (.go 0) ++
    [.call (.look "" ⟨"p", 1⟩), .go 0, .go 0, .go 1]

private def unlike : List (Move Section) :=
  first ++ .call (.check (entryOn .polymarketClob "B")) :: List.replicate 11 (.go 0)

private theorem allowed_checks {ms : List (Move Section)}
    (hm : ms = first ∨ ms = unseen ∨ ms = unlike) : ∀ m ∈ ms, m.Allowed IsCall := by
  rcases hm with rfl | rfl | rfl <;>
    simp [first, unseen, unlike, or_imp, forall_and, Move.Allowed, IsCall.check, IsCall.wait,
      IsCall.complete]

private theorem tellsNumber_oneTenth : oneTenth.TellsNumber := by
  intro req req' ts ts' n n' h
  have hl := congrArg String.toList h
  simpa [oneTenth] using hl

private theorem priced_emptyDesk : emptyDesk.book.Priced := by
  intro e he
  cases he

private theorem positive_emptyDesk : ∀ p ∈ emptyDesk.engine.entries, 0 ≤ p.2.requestedQuote := by
  intro p hp
  cases hp

/-- The same without any delay: entries in flight count in their own quote asset only. -/
theorem unlike_exceeds_cap : ∃ tr t, oneTenth.TellsNumber ∧ emptyDesk.book.Priced ∧
    Run (Step (act oneTenth) IsCall) ⟨emptyDesk, []⟩ tr t ∧ (∀ e ∈ tr, Prompt .copy e) ∧
    ∃ e ∈ tr, Approves .copy e ∧ oneTenth.risk.exposureCap .copy <
        e.post.shared.book.heldExposure .copy + e.post.shared.pendingSize .copy := by
  refine (exists_run_of_follow unlike (allowed_checks (.inr (.inr rfl))) ?_).imp
    fun tr => Exists.imp fun t h => ⟨tellsNumber_oneTenth, priced_emptyDesk, h⟩
  decide +kernel

end SniperBot.Risk
