import SniperBot.Orders.Idempotency

/-!
# How a key comes by a second order

The mirror forgets: however large its cap, enough orders of other keys push a
terminal order out, and the next create of its key makes a new one. And two creates of
one key that look it up before either has entered its order make one each.
-/

namespace SniperBot.Orders

open Execution (isBlank)
open Lib.Runs Lib.Interleaving

variable {m : OrderManager} {s t : State OrderManager Section}
  {tr : List (Entry (State OrderManager Section) (Label Section Reply))}

/-! ## Calls that run alone -/

/-- A run without overlaps, from an empty manager to one that nobody is using. -/
def Quiet (cap : Nat) (tr : List (Entry (State OrderManager Section) (Label Section Reply)))
    (m : OrderManager) : Prop :=
  Run (Step act IsCall) ⟨.new cap, []⟩ tr ⟨m, []⟩ ∧ ∀ e ∈ tr, Apart Exclusive e

theorem Quiet.sound {cap : Nat} (h : Quiet cap tr m) : Sound ⟨m, []⟩ :=
  h.1.invariant_of_entries (fun _ _ _ hs hC hst => Sound.step hs hC hst) h.2 (sound_new cap)

open OrderManager

section

variable (m : OrderManager) (d : OrderDraft)

def nextOrder : Order := d.order (orderId 0 m.idCounter) 0

def withNext : OrderManager :=
  ({ m with idCounter := m.idCounter + 1 } : OrderManager).enter (nextOrder m d)

def afterCreate : OrderManager := (withNext m d).evict

end

open List

theorem Quiet.create {cap : Nat} (h : Quiet cap tr m) {d : OrderDraft}
    (hbl : isBlank d.idempotencyKey = false)
    (hfr : m.byIdem.lookup d.idempotencyKey = none) :
    ∃ tr' e, Quiet cap (tr ++ tr') (afterCreate m d) ∧ e ∈ tr' ∧
    createdOrder e = some (nextOrder m d) := by
  have hc : Step act IsCall ⟨m, []⟩ (.call (.find d 0 0)) ⟨m, [.find d 0 0]⟩ :=
    .call (.create d 0 0)
  have hf : Step act IsCall ⟨m, [.find d 0 0]⟩ (.act _ (.inl (.number d 0 0)))
      ⟨m, [.number d 0 0]⟩ := step_alone (by simp [act, hbl, hfr])
  have hn : Step act IsCall ⟨m, [.number d 0 0]⟩ (.act _ (.inl (.enter (nextOrder m d))))
      ⟨{ m with idCounter := m.idCounter + 1 }, [.enter (nextOrder m d)]⟩ := step_alone rfl
  have hen : Step act IsCall ⟨{ m with idCounter := m.idCounter + 1 }, [.enter (nextOrder m d)]⟩
      (.act (.enter (nextOrder m d)) (.inr (.created (.ok (nextOrder m d)))))
      ⟨afterCreate m d, []⟩ := step_alone rfl
  refine ⟨_, ⟨_, .act (.enter (nextOrder m d)) _, _⟩,
    ⟨h.1.append ((((Run.single hc).snoc hf).snoc hn).snoc hen), ?_⟩,
    mem_append_right _ (mem_singleton_self _), rfl⟩
  intro e he
  simp only [mem_append, mem_singleton] at he
  rcases he with he | ((rfl | rfl) | rfl) | rfl
  · exact h.2 e he
  · trivial
  · exact apart_alone
  · exact apart_alone
  · exact apart_alone

theorem Quiet.transition {cap : Nat} (h : Quiet cap tr m) (id : String) (target : OrderStatus) :
    ∃ tr', Quiet cap (tr ++ tr') (m.transition id target none 0).2 := by
  have hc : Step act IsCall ⟨m, []⟩ (.call (.transition id target none 0))
      ⟨m, [.transition id target none 0]⟩ := .call (.transition id target none 0)
  have ha : Step act IsCall ⟨m, [.transition id target none 0]⟩
      (.act _ (.inr (.transitioned (m.transition id target none 0).1)))
      ⟨(m.transition id target none 0).2, []⟩ := step_alone rfl
  refine ⟨_, h.1.append ((Run.single hc).snoc ha), ?_⟩
  intro e he
  simp only [mem_append, mem_singleton] at he
  rcases he with he | rfl | rfl
  · exact h.2 e he
  · trivial
  · exact apart_alone

theorem get_nextOrder (h : Sound ⟨m, []⟩) (d : OrderDraft) : m.get (nextOrder m d).id = none := by
  by_contra hso
  obtain ⟨o, ho⟩ := Option.ne_none_iff_exists'.mp hso
  have hi : Issued m (nextOrder m d).id := h.issued _ (by simp [places, ho])
  exact not_issued_next m 0 hi

/-! ## Filling the mirror -/

def fillerKey (n : Nat) : String := String.ofList (replicate (n + 1) 'x')

theorem fillerKey_injective {n n' : Nat} (h : fillerKey n = fillerKey n') : n = n' := by
  have hl := congrArg (fun s : String => s.toList.length) h
  simpa [fillerKey] using hl

theorem isBlank_fillerKey (n : Nat) : isBlank (fillerKey n) = false := by
  have hx : Execution.isWhitespace 'x' = false := by decide
  simp [isBlank, fillerKey, hx]

/-- In a mirror with cap `c`, which is not exceeded, the terminal order `o` is the oldest
of `n + 1`, and the fillers from the `n`th on have not come yet. -/
structure Filling (c : Nat) (m : OrderManager) (o : Order) (n : Nat) : Prop where
  cap : m.cap = c
  fifo : ∃ rest, m.fifo = o.id :: rest ∧ rest.length = n
  oldest : m.get o.id = some o
  terminal : o.status.isTerminal = true
  free : ∀ j, n ≤ j → m.byIdem.lookup (fillerKey j) = none

private def want (key : String) : OrderDraft where
  idempotencyKey := key
  module := .sniper
  side := "buy"
  symbol := "TOKEN"
  venue := "pump"
  mode := .paper
  qty := 1
  price := none

variable {c cap n : Nat} {o : Order}

section

variable (h : Filling c m o n) (hso : Sound ⟨m, []⟩)

include h hso

theorem Filling.withNext (d : OrderDraft) :
    (∃ rest, (withNext m d).fifo = o.id :: rest ∧ rest.length = n + 1) ∧
    (withNext m d).get o.id = some o := by
  obtain ⟨rest, hf, hl⟩ := h.fifo
  have hn := get_nextOrder hso d
  constructor
  · refine ⟨rest ++ [(nextOrder m d).id], ?_, ?_⟩
    · show (if (m.get _).isNone then m.fifo ++ [_] else m.fifo) = _
      rw [hn, hf]
      rfl
    · rw [length_append, hl, length_singleton]
  · have hne : o.id ≠ (nextOrder m d).id := by
      intro he
      rw [← he, h.oldest] at hn
      contradiction
    refine (get_enter _).trans ?_
    rw [if_neg hne]
    exact h.oldest

theorem Filling.next (hr : n + 2 ≤ c) :
    Filling c (afterCreate m (want (fillerKey n))) o (n + 1) := by
  obtain ⟨⟨rest, hf, hl⟩, ho⟩ := h.withNext hso (want (fillerKey n))
  have ha : afterCreate m (want (fillerKey n)) = Orders.withNext m (want (fillerKey n)) := by
    refine evict_of_le ?_
    show _ ≤ m.cap
    rw [hf, h.cap, length_cons]
    omega
  rw [ha]
  refine ⟨h.cap, ⟨rest, hf, hl⟩, ho, h.terminal, fun j hj => ?_⟩
  have hk : fillerKey j ≠ fillerKey n := by
    intro he
    have := fillerKey_injective he
    omega
  refine (lookup_enter _).trans ((if_neg hk).trans ?_)
  exact h.free j (by omega)

theorem Filling.evicts (hfu : n + 1 = c) :
    (afterCreate m (want (fillerKey n))).byIdem.lookup o.idempotencyKey = none := by
  obtain ⟨⟨rest, hf, hl⟩, ho⟩ := h.withNext hso (want (fillerKey n))
  have hfi : (Orders.withNext m (want (fillerKey n))).fifo.find?
      (Orders.withNext m (want (fillerKey n))).evictable = some o.id := by
    rw [hf]
    simp [evictable, ho, h.terminal]
  have hr : (Orders.withNext m (want (fillerKey n))).fifo.length -
      (Orders.withNext m (want (fillerKey n))).cap = 1 := by
    show _ - m.cap = 1
    rw [hf, h.cap, length_cons]
    omega
  unfold afterCreate evict
  rw [hr]
  simp only [evictLoop, hfi]
  exact (lookup_forget ho _).trans (if_pos rfl)

end

theorem Filling.create (h : Filling c m o n) (hq : Quiet cap tr m) :
    ∃ tr', Quiet cap (tr ++ tr') (afterCreate m (want (fillerKey n))) := by
  obtain ⟨tr', -, hq', -⟩ :=
    hq.create (d := want (fillerKey n)) (isBlank_fillerKey n) (h.free n (le_refl n))
  exact ⟨tr', hq'⟩

theorem Filling.fill (h : Filling c m o 0) (hq : Quiet cap tr m) (n : Nat) (hn : n + 1 ≤ c) :
    ∃ tr' m', Quiet cap (tr ++ tr') m' ∧ Filling c m' o n := by
  induction n with
  | zero => exact ⟨[], m, by simpa using hq, h⟩
  | succ n ih =>
    obtain ⟨tr', m', hq', hf⟩ := ih (by omega)
    obtain ⟨tr'', hq''⟩ := hf.create hq'
    exact ⟨tr' ++ tr'', _, by rwa [← append_assoc], hf.next hq'.sound (by omega)⟩

/-! ## Two orders of one key -/

section

variable (tr : List (Entry (State OrderManager Section) (Label Section Reply)))

def CreatesTwice : Prop := ∃ e1 ∈ tr, ∃ e2 ∈ tr, ∃ o1 ∈ createdOrder e1, ∃ o2 ∈ createdOrder e2,
    o1.idempotencyKey = o2.idempotencyKey ∧ o1.id ≠ o2.id

instance  : Decidable (CreatesTwice tr) := by
  unfold CreatesTwice
  infer_instance

end

theorem filling_first (cap : Nat) : Filling (max cap 64)
    ((afterCreate (.new cap) (want "k")).transition (orderId 0 0) .failed none 0).2
    ((nextOrder (.new cap) (want "k")).moved .failed none 0) 0 := by
  have ha : afterCreate (.new cap) (want "k") = withNext (.new cap) (want "k") := by
    refine evict_of_le ?_
    show 1 ≤ max cap 64
    omega
  have hg : (withNext (.new cap) (want "k")).get (orderId 0 0) =
      some (nextOrder (.new cap) (want "k")) := (get_enter _).trans (if_pos rfl)
  have hm : ((withNext (.new cap) (want "k")).transition (orderId 0 0) .failed
      none 0).2 = { withNext (.new cap) (want "k") with
        orders := (withNext (.new cap) (want "k")).orders.insert (orderId 0 0)
          ((nextOrder (.new cap) (want "k")).moved .failed none 0) } := by
    unfold transition
    rw [hg]
    rfl
  rw [ha, hm]
  refine ⟨rfl, ⟨[], rfl, rfl⟩, Finmap.lookup_insert _, rfl, fun j _ => ?_⟩
  have hk : fillerKey j ≠ "k" := by
    intro he
    have hc := congrArg String.toList he
    simp [fillerKey, replicate_succ] at hc
  exact (lookup_enter _).trans (if_neg hk)

/-- However large the cap, a key whose order has failed gets a second one after enough
orders of other keys, without any two creates overlapping. -/
theorem createsTwice_beyond_cap (cap : Nat) :
    ∃ tr t, Run (Step act IsCall) ⟨.new cap, []⟩ tr t ∧ (∀ e ∈ tr, Apart Exclusive e) ∧
    CreatesTwice tr := by
  have hst : Quiet cap [] (.new cap) := ⟨.nil, fun e he => by cases he⟩
  obtain ⟨tr1, e1, hq1, he1, hcr⟩ := hst.create (d := want "k") (by decide) rfl
  obtain ⟨tr2, hq2⟩ := hq1.transition (orderId 0 0) .failed
  obtain ⟨n, hn⟩ : ∃ n, n + 1 = max cap 64 := ⟨max cap 64 - 1, by omega⟩
  obtain ⟨tr3, m3, hq, hf⟩ := (filling_first cap).fill hq2 n hn.le
  obtain ⟨tr4, hq4⟩ := hf.create hq
  have hfr := hf.evicts hq.sound hn
  obtain ⟨tr5, e5, hq5, he5, hcre⟩ := hq4.create (d := want "k") (by decide) hfr
  refine ⟨_, _, hq5.1, hq5.2, e1, ?_, e5, ?_, _, hcr, _, hcre, rfl, ?_⟩
  · simp [he1]
  · simp [he5]
  · intro heq
    have hnu := orderId_number heq
    have hc : (afterCreate m3 (want (fillerKey n))).idCounter = m3.idCounter + 1 :=
      idCounter_evictLoop _ _
    rw [hc] at hnu
    exact absurd hnu (by simp [new])

/-- The smallest mirror there is. -/
theorem evicted_key_creates_twice :
    ∃ tr t, Run (Step act IsCall) ⟨.new 64, []⟩ tr t ∧ (∀ e ∈ tr, Apart Exclusive e) ∧
      CreatesTwice tr :=
  createsTwice_beyond_cap 64

private def creating : Section := .find (want "k") 0 0

private def repeated : List (Move Section) :=
  [.call creating, .go 0, .go 0, .go 0, .call creating, .go 0, .go 0]

private def racing : List (Move Section) :=
  [.call creating, .go 0, .call creating, .go 0, .go 0, .go 0, .go 0, .go 0]

/-- Two overlapping creates make two orders. -/
theorem racing_creates_twice : ∃ tr t, Run (Step act IsCall) ⟨.new 64, []⟩ tr t ∧ CreatesTwice tr :=
  exists_run_of_follow racing (by simp [racing, creating, Move.Allowed, IsCall.create])
    (by decide +kernel)

theorem key_leads_to_one_order_repeated :
    ∃ tr t tr1 tr2 tr3 e1 e2 o, Run (Step act IsCall) ⟨.new 64, []⟩ tr t ∧
      (∀ e ∈ tr, Apart Exclusive e) ∧ tr = tr1 ++ e1 :: (tr2 ++ e2 :: tr3) ∧
      returnedOrder e1 = some ("k", o) ∧ returnedOrder e2 = some ("k", o) ∧
      (o.id = o.id ∧ createdOrder e2 = none ∨ ∃ e ∈ tr2, Evicts o.id e) := by
  obtain ⟨tr, t, hr, ha, hre⟩ : ∃ tr t, Run (Step act IsCall) ⟨.new 64, []⟩ tr t ∧
      (∀ e ∈ tr, Apart Exclusive e) ∧ tr.map returnedOrder =
        [none, none, none] ++ some ("k", (want "k").order "ord_0_0" 0) ::
          ([none, none] ++ [some ("k", (want "k").order "ord_0_0" 0)]) :=
    exists_run_of_follow repeated (by simp [repeated, creating, Move.Allowed, IsCall.create])
      (by decide +kernel)
  obtain ⟨tr1, rest, rfl, -, hrest⟩ := map_eq_append_iff.mp hre
  obtain ⟨e1, rest, rfl, h1, hrest⟩ := map_eq_cons_iff.mp hrest
  obtain ⟨tr2, rest, rfl, -, hrest⟩ := map_eq_append_iff.mp hrest
  obtain ⟨e2, tr3, rfl, h2, -⟩ := map_eq_cons_iff.mp hrest
  exact ⟨_, t, tr1, tr2, tr3, e1, e2, _, hr, ha, rfl, h1, h2,
    key_leads_to_one_order hr ha rfl h1 h2⟩

end SniperBot.Orders
