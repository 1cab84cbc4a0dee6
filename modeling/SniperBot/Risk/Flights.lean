import SniperBot.Lib.Totals
import SniperBot.Risk.Desk

/-!
# Entries in flight

How far each entry has got, from the id of its decision to the release of its
reservation, as a multiset of stages; and what every step does to it. Each entry in
flight goes by an id of its own and has its reservation in the book of the engine.
-/

namespace SniperBot.Risk

open Lib.Guard Lib.Runs Lib.Interleaving Lib.Totals Multiset Section
open Positions (Book BotModule Position PositionStatus sourceOf)
open GlobalRisk (Entries RiskEntryReservation ReservedEntry reservationRecord
  reservationMillis GlobalRiskRequest quoteAssetFor decideInner decideTenantInner mem_put mem_remove)

inductive Stage where
  | named (id : String)
  | accepted (ask : Ask) (id : String)
  | dated (ask : Ask) (res : RiskEntryReservation)
  | held (ask : Ask) (res : RiskEntryReservation)
  | looked (ask : Ask) (res : RiskEntryReservation) (opened : List Position)
  | passed (ask : Ask) (res : RiskEntryReservation) (reserved : ℚ)
  | measured (ask : Ask) (res : RiskEntryReservation) (reserved own : ℚ)
  | approved (a : Approval)

namespace Stage

def name : Stage → String
  | named id | accepted _ id => id
  | dated _ res | held _ res | looked _ res _ | passed _ res _ | measured _ res _ _ =>
    res.reservationId
  | approved a => a.res.reservationId

def reservation : Stage → Option RiskEntryReservation
  | named _ | accepted _ _ => none
  | dated _ res | held _ res | looked _ res _ | passed _ res _ | measured _ res _ _ => some res
  | approved a => some a.res

def booked : Stage → Option RiskEntryReservation
  | dated _ _ => none
  | x => x.reservation

variable {res : RiskEntryReservation}

theorem reservation_of_booked {x : Stage} (h : x.booked = some res) : x.reservation = some res := by
  cases x with
  | dated => cases h
  | _ => exact h

theorem name_of_booked {x : Stage} (h : x.booked = some res) : x.name = res.reservationId := by
  cases x with
  | named | accepted | dated => cases h
  | _ =>
    obtain rfl := Option.some.inj h
    rfl

end Stage

def Section.stage : Section → Option Stage
  | .judge _ _ id => some (.named id)
  | .date ask id _ => some (.accepted ask id)
  | .reserve ask res => some (.dated ask res)
  | .leave ask (.ok res) => some (.held ask res)
  | .positions ask res | .drop ask res _ => some (.held ask res)
  | .usage ask res opened => some (.looked ask res opened)
  | .exposure ask res reserved => some (.passed ask res reserved)
  | .approve ask res reserved own => some (.measured ask res reserved own)
  | _ => none

open Stage

def stages (s : State Desk Section) : Multiset Stage :=
  (s.running : Multiset Section).filterMap stage +
    (s.shared.approvals : Multiset Approval).map approved

def IsRecord (R : Rules) (ask : Ask) (res : RiskEntryReservation) : Prop :=
  ∃ id ref expiresAt, res = reservationRecord id ask.globalRequest ref R.tenant expiresAt

abbrev Event := Entry (State Desk Section) (Label Section Reply)

variable {R : Rules} {s t : State Desk Section} {a : Label Section Reply}

theorem mem_stages {x : Stage} : x ∈ stages s ↔
    (∃ k ∈ s.running, k.stage = some x) ∨ ∃ p ∈ s.shared.approvals, .approved p = x := by
  simp only [stages, mem_add, mem_filterMap, mem_map, mem_coe]

/-! ## What a step does -/

structure Same (d d' : Desk) : Prop where
  now : d'.now = d.now
  entries : d'.engine.entries = d.engine.entries
  seq : d'.engine.seq = d.engine.seq
  book : d'.book = d.book
  approvals : d'.approvals = d.approvals

theorem Same.refl (d : Desk) : Same d d := ⟨rfl, rfl, rfl, rfl, rfl⟩

inductive Moves (R : Rules) (s : State Desk Section) (a : Label Section Reply)
    (t : State Desk Section) : Prop
  | quiet (hle : stages t ≤ stages s) (hsame : Same s.shared { t.shared with book := s.shared.book })
      (hheld : ∀ m, t.shared.book.held m ≤ s.shared.book.held m)
      (hpriced : s.shared.book.Priced → t.shared.book.Priced)
  | waited (millis : Nat) (r : Section ⊕ Reply) (ha : a = .act (.wait millis) r)
      (hstages : stages t = stages s) (hshared : t.shared = { s.shared with now := s.shared.now + millis })
  | numbered (req : GlobalRiskRequest)
      (hstages : stages t = .named (R.decisionId req s.shared.now s.shared.engine.seq) ::ₘ stages s)
      (hsame : Same s.shared { t.shared with engine := s.shared.engine })
      (hentries : t.shared.engine.entries = s.shared.engine.entries)
      (hseq : t.shared.engine.seq = s.shared.engine.seq + 1)
  | accepted (ask : Ask) (id : String) (rest : Multiset Stage) (hpos : 0 < ask.req.requestedQuote)
      (hs : stages s = .named id ::ₘ rest) (ht : stages t = .accepted ask id ::ₘ rest)
      (hshared : t.shared = s.shared)
  | dated (ask : Ask) (id : String) (ref : ℚ) (rest : Multiset Stage)
      (hs : stages s = .accepted ask id ::ₘ rest)
      (ht : stages t = .dated ask (reservationRecord id ask.globalRequest ref R.tenant
        (s.shared.now + reservationMillis)) ::ₘ rest)
      (hshared : t.shared = s.shared)
  | reserved (ask : Ask) (res : RiskEntryReservation) (rest : Multiset Stage)
      (hs : stages s = .dated ask res ::ₘ rest) (ht : stages t = .held ask res ::ₘ rest)
      (hshared : t.shared = s.shared.onEntries (·.put res.reservationId (res.entry false)))
  | looked (ask : Ask) (res : RiskEntryReservation) (rest : Multiset Stage)
      (hs : stages s = .held ask res ::ₘ rest)
      (ht : stages t = .looked ask res (s.shared.book.openPositionsFor ask.req.module) ::ₘ rest)
      (hshared : t.shared = s.shared)
  | passed (ask : Ask) (res : RiskEntryReservation) (opened : List Position) (count : Nat)
      (reserved : ℚ) (symbol : Bool) (rest : Multiset Stage)
      (hs : stages s = .looked ask res opened ::ₘ rest)
      (ht : stages t = .passed ask res reserved ::ₘ rest)
      (husage : reservedEntryUsage s.shared.engine.entries s.shared.now ask.req.module R.tenant
        (quoteAssetFor ask.req.venue) ask.req.symbol res.reservationId = (count, reserved, symbol))
      (hcheck : R.checkCapacity ask opened count symbol = .ok ()) (hshared : t.shared = s.shared)
  | measured (ask : Ask) (res : RiskEntryReservation) (reserved : ℚ) (rest : Multiset Stage)
      (hs : stages s = .passed ask res reserved ::ₘ rest)
      (ht : stages t =
        .measured ask res reserved (s.shared.book.openExposure ask.req.module) ::ₘ rest)
      (hshared : t.shared = s.shared)
  | approved (ask : Ask) (res : RiskEntryReservation) (reserved own : ℚ) (decision : RiskDecision)
      (rest : Multiset Stage)
      (ha : a = .act (.approve ask res reserved own) (.inr (.decided decision)))
      (hs : stages s = .measured ask res reserved own ::ₘ rest)
      (ht : stages t = .approved ⟨res, decision.sizedQuote, false⟩ ::ₘ rest)
      (hfinish : R.finish ask reserved own = .ok decision)
      (hshared : t.shared =
        { s.shared with approvals := ⟨res, decision.sizedQuote, false⟩ :: s.shared.approvals })
  | refused (x : Stage) (ask : Ask) (res : RiskEntryReservation) (rest : Multiset Stage)
      (hx : (∃ opened, x = .looked ask res opened) ∨
        ∃ reserved own, x = .measured ask res reserved own)
      (hs : stages s = x ::ₘ rest) (ht : stages t = .held ask res ::ₘ rest)
      (hshared : t.shared = s.shared)
  | dropped (ask : Ask) (res : RiskEntryReservation) (hs : stages s = .held ask res ::ₘ stages t)
      (hshared : t.shared = s.shared.onEntries (·.remove res.reservationId))
  | recorded (fill : Fill) (p : Approval) (rest : Multiset Stage) (hp : p.recorded = false)
      (hmem : p ∈ s.shared.approvals) (hs : stages s = .approved p ::ₘ rest)
      (ht : stages t = .approved { p with recorded := true } ::ₘ rest)
      (hshared : t.shared =
        { s.shared with
          book := s.shared.book.insert (p.position fill s.shared.now)
          approvals := { p with recorded := true } :: s.shared.approvals.erase p })
  | released (p : Approval) (r : Section ⊕ Reply) (ha : a = .act (.release p.res.reservationId) r)
      (hmem : p ∈ s.shared.approvals) (hs : stages s = .approved p ::ₘ stages t)
      (hshared : t.shared =
        { s.shared.onEntries (·.remove p.res.reservationId) with
          approvals := s.shared.approvals.erase p })

theorem pos_of_judge {ask : Ask} {entries : Entries} {ts : Int} {ref : ℚ}
    (h : R.judge ask entries ts = .ok ref) : 0 < ask.req.requestedQuote := by
  unfold Rules.judge at h
  split at h
  · cases hd : decideInner ask.readings.global ask.readings.context entries ts
      ask.globalRequest with
    | error reason =>
      rw [hd] at h
      cases h
    | ok snapshot =>
      simp only [decideInner, ensure_bind_eq_ok] at hd
      exact hd.1
  · simp only [decideTenantInner, ensure_bind_eq_ok] at h
    exact h.1

/-! ### One section at a time -/

def one : Option Stage → Multiset Stage
  | some x => {x}
  | none => 0

@[simp] theorem one_some_add (x : Stage) (m : Multiset Stage) : one (some x) + m = x ::ₘ m :=
  singleton_add x m

@[simp] theorem one_none_add (m : Multiset Stage) : one none + m = m := zero_add m

def next : Section ⊕ Reply → Option Stage
  | .inl k => k.stage
  | .inr _ => none

section

variable {k : Section} {rest : Multiset Section} {d : Desk} {r : Section ⊕ Reply}

theorem filterMap_stage_cons :
    (k ::ₘ rest).filterMap stage = one k.stage + rest.filterMap stage := by
  rw [filterMap_cons]
  cases k.stage <;> rfl

theorem filterMap_stage_continuing (r : Section ⊕ Reply) :
    (continuing r : Multiset Section).filterMap stage = one (next r) := by
  cases r with
  | inl k =>
    show (k ::ₘ 0).filterMap stage = _
    rw [filterMap_stage_cons, filterMap_zero, add_zero]
    rfl
  | inr r => rfl

structure Acts (R : Rules) (s : State Desk Section) (k : Section) (t : State Desk Section)
    (d : Desk) (r : Section ⊕ Reply) (others : Multiset Stage) : Prop where
  shared : t.shared = d
  pre : stages s = one k.stage + others
  post : stages t = one (next r) + others

theorem stages_pre (hpr : (s.running : Multiset Section) = k ::ₘ rest) :
    stages s = one k.stage + (rest.filterMap stage +
    (s.shared.approvals : Multiset Approval).map approved) := by
  rw [stages, hpr, filterMap_stage_cons, add_assoc]

theorem stages_post (hsh : t.shared = d)
    (hpo : (t.running : Multiset Section) = (continuing r : Multiset Section) + rest) :
    stages t = one (next r) + (rest.filterMap stage +
    (d.approvals : Multiset Approval).map approved) := by
  rw [stages, hpo, filterMap_add, filterMap_stage_continuing, hsh, add_assoc]

theorem acts (hsh : t.shared = d) (hpr : (s.running : Multiset Section) = k ::ₘ rest)
    (hpo : (t.running : Multiset Section) = (continuing r : Multiset Section) + rest)
    (ha : d.approvals = s.shared.approvals) :
    Acts R s k t d r (rest.filterMap stage +
    (s.shared.approvals : Multiset Approval).map approved) :=
  ⟨hsh, stages_pre hpr, ha ▸ stages_post hsh hpo⟩

variable {others : Multiset Stage}

section

variable (h : Acts R s k t d r others) (hnext : next r = k.stage ∨ next r = none)

include h hnext

theorem Acts.settled (hd : Same s.shared { d with book := s.shared.book })
    (hh : ∀ m, d.book.held m ≤ s.shared.book.held m)
    (hpr : s.shared.book.Priced → d.book.Priced) : Moves R s a t := by
  obtain ⟨rfl, hpre, hpo⟩ := h
  refine .quiet ?_ hd hh hpr
  rw [hpre, hpo]
  rcases hnext with he | he
  · rw [he]
  · rw [he]
    exact Multiset.add_le_add_right (Multiset.zero_le _)

theorem Acts.quiet (hd : Same s.shared d) : Moves R s a t :=
  h.settled hnext ⟨hd.now, hd.entries, hd.seq, rfl, hd.approvals⟩ (fun _ => by rw [hd.book])
    (by rw [hd.book]; exact id)

end

theorem cons_erase {l : List Approval} {p : Approval} (h : p ∈ l) :
    (l : Multiset Approval) = p ::ₘ (l.erase p : List Approval) :=
  coe_eq_coe.mpr (List.perm_cons_erase h)

theorem moves_of_act (hac : act R k s.shared = (d, r)) (hsh : t.shared = d)
    (hpr : (s.running : Multiset Section) = k ::ₘ rest)
    (hpo : (t.running : Multiset Section) = (continuing r : Multiset Section) + rest) :
    Moves R s (.act k r) t := by
  have ha := acts (R := R) hsh hpr hpo
  have hs := stages_pre hpr
  have ht := stages_post hsh hpo
  cases k with
  | wait millis =>
    cases hac
    exact .waited millis _ rfl (ht.trans hs.symm) hsh
  | check ask =>
    simp only [act] at hac
    split at hac <;> cases hac <;> exact (ha rfl).quiet (.inr rfl) (Same.refl _)
  | gate ask =>
    simp only [act] at hac
    split at hac <;> cases hac <;> exact (ha rfl).quiet (.inr rfl) ⟨rfl, rfl, rfl, rfl, rfl⟩
  | number ask =>
    cases hac
    refine .numbered ask.globalRequest ?_ ?_ ?_ ?_
    · rw [ht, hs]
      exact (one_some_add _ _).trans (congrArg _ (one_none_add _).symm)
    · rw [hsh]
      exact ⟨rfl, rfl, rfl, rfl, rfl⟩
    · rw [hsh]
    · rw [hsh]
  | judge ask ts id =>
    simp only [act] at hac
    split at hac
    · next ref hj =>
      cases hac
      exact .accepted ask id _ (pos_of_judge hj) hs ht hsh
    · cases hac
      exact (ha rfl).quiet (.inr rfl) (Same.refl _)
  | date ask id ref =>
    cases hac
    exact .dated ask id ref _ hs ht hsh
  | reserve ask res =>
    cases hac
    exact .reserved ask res _ hs ht hsh
  | leave ask outcome =>
    cases hac
    cases outcome with
    | error code => exact (ha rfl).quiet (.inr rfl) ⟨rfl, rfl, rfl, rfl, rfl⟩
    | ok res =>
      refine (ha rfl).quiet (.inl ?_) ⟨rfl, rfl, rfl, rfl, rfl⟩
      show next (if ask.req.slippageBps ≤ R.risk.maxSlippageBps then _ else _) = _
      split <;> rfl
  | positions ask res =>
    cases hac
    exact .looked ask res _ hs ht hsh
  | usage ask res opened =>
    obtain ⟨⟨count, reserved, symbol⟩, husage⟩ : ∃ u, reservedEntryUsage s.shared.engine.entries
      s.shared.now ask.req.module R.tenant (quoteAssetFor ask.req.venue) ask.req.symbol
      res.reservationId = u := ⟨_, rfl⟩
    simp only [act, husage] at hac
    split at hac
    · cases hac
      exact .refused _ ask res _ (.inl ⟨opened, rfl⟩) hs ht hsh
    · next hc =>
      cases hac
      exact .passed ask res opened count reserved symbol _ hs ht husage hc hsh
  | exposure ask res reserved =>
    cases hac
    exact .measured ask res reserved _ hs ht hsh
  | approve ask res reserved own =>
    simp only [act] at hac
    split at hac
    · cases hac
      exact .refused _ ask res _ (.inr ⟨reserved, own, rfl⟩) hs ht hsh
    · next decision hfi =>
      cases hac
      refine .approved ask res reserved own decision _ rfl (hs.trans (one_some_add _ _)) ?_ hfi hsh
      rw [ht, ← cons_coe, map_cons, add_cons]
      exact one_none_add _
  | drop ask res code =>
    cases hac
    refine .dropped ask res ?_ hsh
    rw [ht, hs]
    exact (one_some_add _ _).trans (congrArg _ (one_none_add _).symm)
  | look id fill =>
    cases hac
    exact (ha rfl).quiet (.inr rfl) (Same.refl _)
  | record id fill isNew =>
    simp only [act] at hac
    split at hac
    · next p hf =>
      have hm := List.mem_of_find?_eq_some hf
      have hp := List.find?_some hf
      simp only [decide_eq_true_eq] at hp
      have hi : next (.inl (if isNew then .push id fill else .release id)) = none := by
        cases isNew <;> rfl
      cases hac
      refine .recorded fill p (rest.filterMap stage +
        ((s.shared.approvals.erase p : List Approval) : Multiset Approval).map approved)
        hp.2 hm ?_ ?_ hsh
      · rw [hs, cons_erase hm, map_cons, add_cons]
        exact one_none_add _
      · rw [ht, hi, ← cons_coe, map_cons, add_cons]
        exact one_none_add _
    · cases hac
      exact (ha rfl).quiet (.inr rfl) (Same.refl _)
  | push id fill =>
    cases hac
    exact (ha rfl).settled (.inr rfl) ⟨rfl, rfl, rfl, rfl, rfl⟩ (fun _ => le_rfl) fun h => h
  | release id =>
    simp only [act] at hac
    split at hac
    · next p hf =>
      have hm := List.mem_of_find?_eq_some hf
      have hid := List.find?_some hf
      obtain rfl := of_decide_eq_true hid
      cases hac
      refine .released p _ rfl hm ?_ hsh
      rw [ht, hs, cons_erase hm, map_cons, add_cons]
      exact (one_none_add _).trans (congrArg _ (one_none_add _).symm)
    · cases hac
      exact (ha rfl).quiet (.inr rfl) (Same.refl _)
  | close positionId status reason =>
    cases hac
    exact (ha rfl).settled (.inr rfl) ⟨rfl, rfl, rfl, rfl, rfl⟩
      (fun _ => Book.held_closePosition_le status.2) fun h => h.closePosition

end

theorem moves_of_step (hs : Step (act R) IsCall s a t) : Moves R s a t := by
  rcases hs.multiset_cases with ⟨k, rfl, hk, hsh, hr⟩ | ⟨k, rest, rfl, hsh, hpr, hpo⟩
  · have hi : k.stage = none := by cases hk <;> rfl
    have hst : stages t = stages s := by
      rw [stages, stages, hr, filterMap_stage_cons, hi, one_none_add, hsh]
    exact .quiet hst.le (hsh ▸ Same.refl _) (fun m => by rw [hsh]) (by rw [hsh]; exact id)
  · exact moves_of_act rfl hsh hpr hpo

/-! ## Approvals -/

def approval (e : Event) : Option (Ask × RiskDecision) :=
  match e.label with
  | .act (.approve ask _ _ _) (.inr (.decided decision)) => some (ask, decision)
  | _ => none

def Approves (m : BotModule) (e : Event) : Prop := ∃ p ∈ approval e, p.1.req.module = m

instance (m : BotModule) (e : Event) : Decidable (Approves m e) := by
  unfold Approves
  infer_instance

theorem step_of_approval {ask : Ask} {decision : RiskDecision} (hs : Step (act R) IsCall s a t)
    (ha : approval ⟨s, a, t⟩ = some (ask, decision)) :
    ∃ res reserved own, .measured ask res reserved own ∈ stages s ∧
    R.finish ask reserved own = .ok decision ∧
    t.shared.approvals = ⟨res, decision.sizedQuote, false⟩ :: s.shared.approvals := by
  rcases hs.shared_cases with ⟨k, rfl, -⟩ | ⟨k, hk, rfl, hsh⟩
  · cases ha
  cases k with
  | approve ask' res reserved own =>
    cases hf : R.finish ask' reserved own with
    | error code =>
      simp only [act, hf] at ha
      cases ha
    | ok decision' =>
      simp only [act, hf] at ha
      obtain ⟨rfl, rfl⟩ := Prod.mk.inj (Option.some.inj ha)
      refine ⟨res, reserved, own, ?_, hf, ?_⟩
      · exact mem_stages.mpr (.inl ⟨_, hk, rfl⟩)
      · simp only [hsh, act, hf]
  | _ => cases ha

/-! ## Ids and the book of the engine -/

/-- Ids tell decisions of one engine apart. -/
def Rules.TellsNumber (R : Rules) : Prop :=
  ∀ req req' ts ts' n n', R.decisionId req ts n = R.decisionId req' ts' n' → n = n'

def Stage.Filed (R : Rules) : Stage → Prop
  | .named _ => True
  | .accepted ask _ => 0 < ask.req.requestedQuote
  | .dated ask res | .held ask res | .looked ask res _ | .passed ask res _
  | .measured ask res _ _ => IsRecord R ask res ∧ 0 < res.requestedQuote
  | .approved a => a.res.organization = R.tenant ∧ 0 < a.sized ∧ a.sized ≤ a.res.requestedQuote

namespace IsRecord

variable {ask : Ask} {res : RiskEntryReservation}

section

variable (h : IsRecord R ask res)

include h

theorem module_eq : res.module = ask.req.module := by
  obtain ⟨_, _, _, rfl⟩ := h
  rfl

theorem asset_eq : res.asset = ask.req.symbol := by
  obtain ⟨_, _, _, rfl⟩ := h
  rfl

theorem quoteAsset_eq : res.quoteAsset = quoteAssetFor ask.req.venue := by
  obtain ⟨_, _, _, rfl⟩ := h
  rfl

theorem requestedQuote_eq : res.requestedQuote = ask.req.requestedQuote := by
  obtain ⟨_, _, _, rfl⟩ := h
  rfl

theorem organization_eq : res.organization = R.tenant := by
  obtain ⟨_, _, _, rfl⟩ := h
  rfl

end

end IsRecord

/-- Every entry in flight has an id of its own, and from a certain stage on its reservation
is in the book. -/
structure Booked (R : Rules) (s : State Desk Section) : Prop where
  nodup : ((stages s).map name).Nodup
  issued : ∀ x ∈ stages s, ∃ req ts n, x.name = R.decisionId req ts n ∧ n < s.shared.engine.seq
  filed : ∀ x ∈ stages s, x.Filed R
  entries : ∀ x ∈ stages s, ∀ res, x.booked = some res →
    (res.reservationId, res.entry false) ∈ s.shared.engine.entries
  positive : ∀ p ∈ s.shared.engine.entries, 0 ≤ p.2.requestedQuote

namespace Booked

variable {x y : Stage} {rest : Multiset Stage}

theorem name_ne (hb : Booked R s) (hs : stages s = x ::ₘ rest) {z : Stage} (hz : z ∈ rest) :
    z.name ≠ x.name := by
  have hn := hb.nodup
  rw [hs, map_cons, nodup_cons] at hn
  exact fun he => hn.1 (he ▸ mem_map_of_mem _ hz)

theorem of_le (hb : Booked R s) (hle : stages t ≤ stages s)
    (he : t.shared.engine.entries = s.shared.engine.entries)
    (hse : t.shared.engine.seq = s.shared.engine.seq) : Booked R t := by
  constructor
  · exact nodup_of_le (map_le_map hle) hb.nodup
  · rw [hse]
    exact fun x hx => hb.issued x (mem_of_le hle hx)
  · exact fun x hx => hb.filed x (mem_of_le hle hx)
  · rw [he]
    exact fun x hx => hb.entries x (mem_of_le hle hx)
  · rw [he]
    exact hb.positive

section

variable (hb : Booked R s) (hs : stages s = x ::ₘ rest) (ht : stages t = y ::ₘ rest)
  (hn : y.name = x.name) (hf : y.Filed R)

include hb hs ht hn hf

theorem swap (hse : ∀ res, y.booked = some res →
    (res.reservationId, res.entry false) ∈ t.shared.engine.entries)
    (ho : ∀ p ∈ s.shared.engine.entries, p.1 ≠ x.name → p ∈ t.shared.engine.entries)
    (hpo : ∀ p ∈ t.shared.engine.entries, 0 ≤ p.2.requestedQuote)
    (hseq : t.shared.engine.seq = s.shared.engine.seq) : Booked R t := by
  have hrest : ∀ z ∈ rest, z ∈ stages s := by
    intro z hz
    rw [hs]
    exact mem_cons_of_mem hz
  have hc : ∀ z ∈ stages t, z = y ∨ z ∈ rest := by
    intro z hz
    rw [ht] at hz
    exact mem_cons.mp hz
  constructor
  · have hno := hb.nodup
    rw [hs, map_cons] at hno
    rwa [ht, map_cons, hn]
  · intro z hz
    rw [hseq]
    rcases hc z hz with rfl | hz
    · rw [hn]
      exact hb.issued x (hs ▸ mem_cons_self x rest)
    · exact hb.issued z (hrest z hz)
  · intro z hz
    rcases hc z hz with rfl | hz
    · exact hf
    · exact hb.filed z (hrest z hz)
  · intro z hz res hr
    rcases hc z hz with rfl | hz
    · exact hse res hr
    · refine ho _ (hb.entries z (hrest z hz) res hr) ?_
      show res.reservationId ≠ x.name
      rw [← name_of_booked hr]
      exact hb.name_ne hs hz
  · exact hpo

theorem swap_same (hbo : ∀ res, y.booked = some res → x.booked = some res)
    (he : t.shared.engine = s.shared.engine) : Booked R t := by
  refine hb.swap hs ht hn hf ?_ ?_ ?_ (by rw [he])
  · intro res hr
    rw [he]
    exact hb.entries x (hs ▸ mem_cons_self x rest) res (hbo res hr)
  · intro p hp _
    rwa [he]
  · rw [he]
    exact hb.positive

end

theorem remove (hb : Booked R s) (hs : stages s = x ::ₘ stages t)
    (he : t.shared.engine.entries = s.shared.engine.entries.remove x.name)
    (hse : t.shared.engine.seq = s.shared.engine.seq) : Booked R t := by
  have hle : stages t ≤ stages s := by
    rw [hs]
    exact le_cons_self _ _
  constructor
  · exact nodup_of_le (map_le_map hle) hb.nodup
  · rw [hse]
    exact fun z hz => hb.issued z (mem_of_le hle hz)
  · exact fun z hz => hb.filed z (mem_of_le hle hz)
  · intro z hz res hr
    rw [he, mem_remove]
    refine ⟨hb.entries z (mem_of_le hle hz) res hr, ?_⟩
    show res.reservationId ≠ x.name
    rw [← name_of_booked hr]
    exact hb.name_ne hs hz
  · rw [he]
    exact fun p hp => hb.positive p (mem_remove.mp hp).1

theorem step (hi : R.TellsNumber) (hb : Booked R s) (hs : Step (act R) IsCall s a t) :
    Booked R t := by
  have hm : ∀ {x rest}, stages s = x ::ₘ rest → x.Filed R := by
    intro x rest hs
    exact hb.filed x (hs ▸ mem_cons_self x rest)
  cases moves_of_step hs with
  | quiet hle hsa => exact hb.of_le hle hsa.entries hsa.seq
  | waited millis r ha hst hsh =>
    exact hb.of_le hst.le (by rw [hsh]) (by rw [hsh])
  | numbered req hst hsa he hse =>
    constructor
    · rw [hst, map_cons, nodup_cons]
      refine ⟨fun hm => ?_, hb.nodup⟩
      obtain ⟨x, hx, hna⟩ := mem_map.mp hm
      obtain ⟨req', ts, n, hn, hl⟩ := hb.issued x hx
      have heq := hi _ _ _ _ _ _ (hn.symm.trans hna)
      omega
    · rw [hst, hse]
      intro x hx
      rcases mem_cons.mp hx with rfl | hx
      · exact ⟨req, _, _, rfl, Nat.lt_succ_self _⟩
      · obtain ⟨req', ts, n, hn, hl⟩ := hb.issued x hx
        exact ⟨req', ts, n, hn, by omega⟩
    · rw [hst]
      intro x hx
      rcases mem_cons.mp hx with rfl | hx
      · trivial
      · exact hb.filed x hx
    · rw [hst, he]
      intro x hx res hr
      rcases mem_cons.mp hx with rfl | hx
      · cases hr
      · exact hb.entries x hx res hr
    · rw [he]
      exact hb.positive
  | accepted ask id rest hpos hs ht hsh =>
    exact hb.swap_same hs ht rfl hpos (fun _ h => by cases h) (by rw [hsh])
  | dated ask id ref rest hs ht hsh =>
    exact hb.swap_same hs ht rfl ⟨⟨_, _, _, rfl⟩, hm hs⟩ (fun _ h => by cases h) (by rw [hsh])
  | reserved ask res rest hs ht hsh =>
    have hf : IsRecord R ask res ∧ 0 < res.requestedQuote := hm hs
    have he : t.shared.engine.entries =
        s.shared.engine.entries.put res.reservationId (res.entry false) := by
      rw [hsh]
      rfl
    refine hb.swap hs ht rfl hf ?_ ?_ ?_ (by rw [hsh]; rfl)
    · intro res' hr'
      obtain rfl := Option.some.inj hr'
      rw [he, mem_put]
      exact .inl rfl
    · intro p hp hne
      rw [he, mem_put]
      exact .inr ⟨hp, hne⟩
    · intro p hp
      rw [he, mem_put] at hp
      rcases hp with rfl | ⟨hp, -⟩
      · exact hf.2.le
      · exact hb.positive p hp
  | looked _ _ _ hs ht hsh | passed _ _ _ _ _ _ _ hs ht _ _ hsh
  | measured _ _ _ _ hs ht hsh | recorded _ _ _ _ _ hs ht hsh =>
    have hf := hm hs
    exact hb.swap_same hs ht rfl hf (fun _ h => h) (by rw [hsh])
  | approved ask res reserved own decision rest _ hs ht hfi hsh =>
    have hf : IsRecord R ask res ∧ 0 < res.requestedQuote := hm hs
    have hg := granted_of_finish hfi
    refine hb.swap_same hs ht rfl ⟨hf.1.organization_eq, hg.pos, ?_⟩ (fun _ h => h) (by rw [hsh])
    show decision.sizedQuote ≤ res.requestedQuote
    rw [hf.1.requestedQuote_eq]
    exact hg.le_requested
  | refused x ask res rest hx hs ht hsh =>
    have hf := hm hs
    rcases hx with ⟨opened, rfl⟩ | ⟨reserved, own, rfl⟩
    · exact hb.swap_same hs ht rfl hf (fun _ h => h) (by rw [hsh])
    · exact hb.swap_same hs ht rfl hf (fun _ h => h) (by rw [hsh])
  | dropped _ _ hs hsh | released _ _ _ _ hs hsh =>
    exact hb.remove hs (by rw [hsh]; rfl) (by rw [hsh]; rfl)

end Booked

/-! ## Reservations that last -/

/-- No check and no entry of the module outlasts its reservation. -/
def Prompt (m : BotModule) (e : Event) : Prop :=
  match e.label with
  | .act (.wait millis) _ =>
    (∀ k ∈ e.pre.running, ∀ x ∈ k.stage, ∀ res ∈ x.reservation, res.module = m →
      e.pre.shared.now + millis < res.expiresAt) ∧
    ∀ p ∈ e.pre.shared.approvals, p.res.module = m → e.pre.shared.now + millis < p.res.expiresAt
  | _ => True

instance (m : BotModule) (e : Event) : Decidable (Prompt m e) := by
  unfold Prompt
  split <;> infer_instance

/-- The reservations of the module that are in flight have not expired. -/
def Unexpired (m : BotModule) (s : State Desk Section) : Prop :=
  ∀ x ∈ stages s, ∀ res, x.reservation = some res → res.module = m → s.shared.now < res.expiresAt

theorem now_step (hs : Step (act R) IsCall s a t) : t.shared.now = s.shared.now ∨
    ∃ millis r, a = .act (.wait millis) r ∧ t.shared.now = s.shared.now + millis := by
  cases moves_of_step hs with
  | waited millis r ha _ hsh => exact .inr ⟨millis, r, ha, by rw [hsh]⟩
  | quiet _ hsa => exact .inl hsa.now
  | numbered _ _ hsa => exact .inl hsa.now
  | accepted _ _ _ _ _ _ hsh | dated _ _ _ _ _ _ hsh | looked _ _ _ _ _ hsh
  | passed _ _ _ _ _ _ _ _ _ _ _ hsh | measured _ _ _ _ _ _ hsh
  | refused _ _ _ _ _ _ _ hsh => exact .inl (by rw [hsh])
  | approved _ _ _ _ _ _ _ _ _ _ hsh | recorded _ _ _ _ _ _ _ hsh =>
    exact .inl (by rw [hsh])
  | reserved _ _ _ _ _ hsh | dropped _ _ _ hsh | released _ _ _ _ _ hsh =>
    exact .inl (by rw [hsh]; rfl)

variable {res : RiskEntryReservation}

theorem reservation_origin (hs : Step (act R) IsCall s a t) {y : Stage} (hy : y ∈ stages t)
    (hr : y.reservation = some res) :
    (∃ x ∈ stages s, x.reservation = some res) ∨
    ∃ ask id ref, .accepted ask id ∈ stages s ∧ t.shared.now = s.shared.now ∧
      res = reservationRecord id ask.globalRequest ref R.tenant
        (s.shared.now + reservationMillis) := by
  have hsw : ∀ {x z rest}, stages s = x ::ₘ rest → stages t = z ::ₘ rest →
      (∀ res, z.reservation = some res → x.reservation = some res) →
      ∃ x ∈ stages s, x.reservation = some res := by
    intro x z rest hpr hpo hxz
    rw [hpo] at hy
    rcases mem_cons.mp hy with rfl | hy
    · exact ⟨x, hpr ▸ mem_cons_self x rest, hxz res hr⟩
    · exact ⟨y, hpr ▸ mem_cons_of_mem hy, hr⟩
  cases moves_of_step hs with
  | quiet hle => exact .inl ⟨y, mem_of_le hle hy, hr⟩
  | waited _ _ _ hst => exact .inl ⟨y, hst ▸ hy, hr⟩
  | numbered req hst =>
    rw [hst] at hy
    rcases mem_cons.mp hy with rfl | hy
    · cases hr
    · exact .inl ⟨y, hy, hr⟩
  | accepted _ _ _ _ hpr hpo => exact .inl (hsw hpr hpo fun _ h => by cases h)
  | dated ask id ref rest hpr hpo hsh =>
    rw [hpo] at hy
    rcases mem_cons.mp hy with rfl | hy
    · exact .inr ⟨ask, id, ref, hpr ▸ mem_cons_self _ rest, by rw [hsh], (Option.some.inj hr).symm⟩
    · exact .inl ⟨y, hpr ▸ mem_cons_of_mem hy, hr⟩
  | reserved _ _ _ hpr hpo | looked _ _ _ hpr hpo | passed _ _ _ _ _ _ _ hpr hpo
  | measured _ _ _ _ hpr hpo | approved _ _ _ _ _ _ _ hpr hpo
  | recorded _ _ _ _ _ hpr hpo => exact .inl (hsw hpr hpo fun _ h => h)
  | refused x ask res' rest hx hpr hpo =>
    refine .inl (hsw hpr hpo fun res'' h => ?_)
    rcases hx with ⟨opened, rfl⟩ | ⟨reserved, own, rfl⟩
    · exact h
    · exact h
  | dropped _ _ hpr | released _ _ _ _ hpr =>
    exact .inl ⟨y, hpr ▸ mem_cons_of_mem hy, hr⟩

theorem Unexpired.step {m : BotModule} (hu : Unexpired m s) (hpr : Prompt m ⟨s, a, t⟩)
    (hs : Step (act R) IsCall s a t) : Unexpired m t := by
  intro y hy res hr hm
  rcases reservation_origin hs hy hr with ⟨x, hx, hxr⟩ | ⟨ask, id, ref, -, hn, rfl⟩
  · rcases now_step hs with hn | ⟨millis, r, rfl, hn⟩
    · rw [hn]
      exact hu x hx res hxr hm
    · rw [hn]
      rcases mem_stages.mp hx with ⟨k, hk, hst⟩ | ⟨p, hp, rfl⟩
      · exact hpr.1 k hk x hst res hxr hm
      · obtain rfl := Option.some.inj hxr
        exact hpr.2 p hp hm
  · rw [hn]
    show s.shared.now < s.shared.now + reservationMillis
    unfold reservationMillis
    omega

/-! ## What a check counts -/

/-- The reservations of the module in the book, apart from one's own. -/
def bookedFor (m : BotModule) (rest : Multiset Stage) : Multiset RiskEntryReservation :=
  (rest.filterMap booked).filter (·.module = m)

theorem mem_bookedFor {m : BotModule} {rest : Multiset Stage} :
    res ∈ bookedFor m rest ↔ (∃ z ∈ rest, z.booked = some res) ∧ res.module = m := by
  simp [bookedFor]

theorem bookedFor_cons {m : BotModule} {x : Stage} {rest : Multiset Stage}
    {res : RiskEntryReservation} (hr : x.booked = some res) (hm : res.module = m) :
    bookedFor m (x ::ₘ rest) = res ::ₘ bookedFor m rest := by
  rw [bookedFor, filterMap_cons_some _ _ _ hr]
  exact filter_cons_of_pos (p := fun res : RiskEntryReservation => res.module = m) _ hm

theorem map_id_booked_le (rest : Multiset Stage) :
    (rest.filterMap booked).map RiskEntryReservation.reservationId ≤ rest.map name := by
  induction rest using Multiset.induction_on with
  | empty => exact le_rfl
  | cons x rest ih =>
    rw [map_cons]
    cases hx : x.booked with
    | none =>
      rw [filterMap_cons_none _ _ hx]
      exact ih.trans (le_cons_self _ _)
    | some res =>
      rw [filterMap_cons_some _ _ _ hx, map_cons, name_of_booked hx]
      exact cons_le_cons _ ih

theorem Stage.Filed.organization_eq {x : Stage} (hx : x.Filed R) (hr : x.booked = some res) :
    res.organization = R.tenant := by
  cases x with
  | named | accepted | dated => cases hr
  | approved p =>
    obtain rfl := Option.some.inj hr
    exact hx.1
  | held ask res' | looked ask res' _ | passed ask res' _ | measured ask res' _ _ =>
    obtain rfl := Option.some.inj hr
    exact hx.1.organization_eq

section

variable {m : BotModule} {x : Stage} {rest : Multiset Stage} {quote symbol : String}
  {count : Nat} {reserved : ℚ} {dup : Bool}

theorem Booked.counted (hb : Booked R s) (hu : Unexpired m s) (hs : stages s = x ::ₘ rest) :
    (bookedFor m rest).map (fun res => (res.reservationId, res.entry false)) ≤
    (othersInFlight s.shared.engine.entries s.shared.now m R.tenant x.name : Multiset _) := by
  have hme : ∀ z ∈ rest, z ∈ stages s := fun z hz => hs ▸ mem_cons_of_mem hz
  have hno : (bookedFor m rest).map (fun res => (res.reservationId, res.entry false)) |>.Nodup := by
    refine Multiset.Nodup.of_map Prod.fst ?_
    rw [map_map]
    have hn : (rest.map name).Nodup := by
      have ha := hb.nodup
      rw [hs, map_cons, nodup_cons] at ha
      exact ha.2
    refine nodup_of_le ?_ hn
    exact (map_le_map (filter_le _ _)).trans (map_id_booked_le rest)
  rw [le_iff_subset hno]
  intro p hp
  obtain ⟨res, hr, rfl⟩ := mem_map.mp hp
  obtain ⟨⟨z, hz, hbo⟩, hm⟩ := mem_bookedFor.mp hr
  have hne : res.reservationId ≠ x.name := by
    rw [← name_of_booked hbo]
    exact hb.name_ne hs hz
  have hl := hu z (hme z hz) res (reservation_of_booked hbo) hm
  have ho := (hb.filed z (hme z hz)).organization_eq hbo
  rw [mem_coe, othersInFlight, List.mem_filter]
  exact ⟨hb.entries z (hme z hz) res hbo, decide_eq_true ⟨hne, hl, hm, ho⟩⟩

variable (hb : Booked R s) (hu : Unexpired m s) (hs : stages s = x ::ₘ rest)
  (husage : reservedEntryUsage s.shared.engine.entries s.shared.now m R.tenant quote symbol x.name =
    (count, reserved, dup))

include hb hu hs husage

theorem card_bookedFor_le : (bookedFor m rest).card ≤ count := by
  have hle := card_le_card (hb.counted hu hs)
  rw [card_map] at hle
  obtain ⟨rfl, -⟩ := Prod.mk.inj husage
  exact hle

theorem symbol_not_booked (hd : dup = false) : ∀ res ∈ bookedFor m rest, res.asset ≠ symbol := by
  intro res hr ha
  have hm := mem_of_le (hb.counted hu hs) (mem_map_of_mem _ hr)
  obtain ⟨-, hrest⟩ := Prod.mk.inj husage
  obtain ⟨-, rfl⟩ := Prod.mk.inj hrest
  rw [List.any_eq_false] at hd
  exact hd _ (mem_coe.mp hm) (decide_eq_true ha)

theorem sum_bookedFor_le (hq : ∀ res ∈ bookedFor m rest, res.quoteAsset = quote) :
    ((bookedFor m rest).map RiskEntryReservation.requestedQuote).sum ≤ reserved := by
  obtain ⟨-, hrest⟩ := Prod.mk.inj husage
  obtain ⟨rfl, -⟩ := Prod.mk.inj hrest
  let pairs := (bookedFor m rest).map fun res => (res.reservationId, res.entry false)
  have ha : ∀ p ∈ pairs, p.2.quoteAsset = quote := by
    intro p hp
    obtain ⟨res, hr, rfl⟩ := mem_map.mp hp
    exact hq res hr
  have hle : pairs ≤ filter (·.2.quoteAsset = quote)
      (othersInFlight s.shared.engine.entries s.shared.now m R.tenant x.name : Multiset _) := by
    rw [← filter_eq_self.mpr ha]
    exact filter_le_filter _ (hb.counted hu hs)
  obtain ⟨more, hm⟩ := Multiset.le_iff_exists_add.mp hle
  have hsu := congrArg (fun l => (l.map fun p => p.2.requestedQuote).sum) hm
  simp only [filter_coe, map_coe, sum_coe, map_add, sum_add] at hsu
  have hsa : (pairs.map fun p => p.2.requestedQuote).sum =
      ((bookedFor m rest).map RiskEntryReservation.requestedQuote).sum := by
    rw [map_map]
    rfl
  have hn : 0 ≤ (more.map fun p => p.2.requestedQuote).sum := by
    refine sum_nonneg fun w hw => ?_
    obtain ⟨p, hp, rfl⟩ := mem_map.mp hw
    have hme : p ∈ pairs + more := mem_add.mpr (.inr hp)
    rw [← hm] at hme
    have hme := mem_coe.mp (mem_of_mem_filter hme)
    exact hb.positive p (List.mem_of_mem_filter hme)
  linarith

end

end SniperBot.Risk
