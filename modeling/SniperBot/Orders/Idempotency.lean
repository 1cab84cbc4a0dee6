import SniperBot.Lib.Interleaving
import SniperBot.Orders.Manager

/-!
# One order per idempotency key

`create` looks its key up, numbers a new order and enters it, under locks of its own each time;
`Section` is where a call stands between two of them. Two creates of one key that both miss both
enter an order. Without such an overlap a key leads to one order while the mirror keeps it.
-/

namespace SniperBot.Orders

open Execution (BotError isBlank)
open Lib.Runs Lib.Interleaving

/-- The section a call runs next. `now` and `millis` are the two clock readings of a
create. -/
inductive Section where
  | find (draft : OrderDraft) (now millis : Int)
  | load (draft : OrderDraft) (id : String) (now millis : Int)
  | number (draft : OrderDraft) (now millis : Int)
  | enter (order : Order)
  | transition (id : String) (target : OrderStatus) (reason : Option String) (now : Int)
  deriving DecidableEq

inductive Reply where
  | created (result : Except BotError Order)
  | transitioned (result : Except BotError Order)

def emptyKey : BotError := .invalidArgument "order idempotency_key must not be empty"

open OrderManager

def act : Section → OrderManager → OrderManager × (Section ⊕ Reply)
  | .find draft now millis, m =>
    if isBlank draft.idempotencyKey then (m, .inr (.created (.error emptyKey)))
    else
      match m.byIdem.lookup draft.idempotencyKey with
      | some id => (m, .inl (.load draft id now millis))
      | none => (m, .inl (.number draft now millis))
  | .load draft id now millis, m =>
    match m.get id with
    | some existing => (m, .inr (.created (.ok existing)))
    | none => (m, .inl (.number draft now millis))
  | .number draft now millis, m =>
    ({ m with idCounter := m.idCounter + 1 },
      .inl (.enter (draft.order (orderId millis m.idCounter) now)))
  | .enter order, m => (m.insertMirror order, .inr (.created (.ok order)))
  | .transition id target reason now, m =>
    ((m.transition id target reason now).2,
      .inr (.transitioned (m.transition id target reason now).1))

inductive IsCall : Section → Prop
  | create (draft : OrderDraft) (now millis : Int) : IsCall (.find draft now millis)
  | transition (id : String) (target : OrderStatus) (reason : Option String) (now : Int) :
      IsCall (.transition id target reason now)

namespace Section

def key : Section → Option String
  | .find draft _ _ | .load draft _ _ _ | .number draft _ _ => some draft.idempotencyKey
  | .enter order => some order.idempotencyKey
  | .transition _ _ _ _ => none

def pending : Section → Option String
  | .find _ _ _ => none
  | k => k.key

def entering : Section → Option String
  | .enter order => some order.idempotencyKey
  | _ => none

def carries (id : String) : Section → Bool
  | .enter order => order.id == id
  | _ => false

end Section

/-! ## Numbered ids -/

open List

theorem takeWhile_reverse_last {l digits : List Char} (h : '_' ∉ digits) :
    (l ++ '_' :: digits).reverse.takeWhile (· ≠ '_') = digits.reverse := by
  simp only [reverse_append, reverse_cons, append_assoc, cons_append, nil_append]
  rw [takeWhile_append_of_pos]
  · simp
  · intro c hc
    have hc : c ∈ digits := mem_reverse.mp hc
    simp only [decide_eq_true_eq]
    rintro rfl
    exact h hc

theorem toList_orderId (millis : Int) (n : Nat) : (orderId millis n).toList =
    ("ord_" ++ toString millis).toList ++ '_' :: Nat.toDigits 10 n := by
  show ("ord_" ++ toString millis ++ "_" ++ Nat.repr n).toList = _
  simp [String.toList_append]

theorem orderId_number {millis millis' : Int} {n n' : Nat}
    (h : orderId millis n = orderId millis' n') : n = n' := by
  have hl := congrArg (fun s : String => s.toList.reverse.takeWhile (· ≠ '_')) h
  simp only [toList_orderId, takeWhile_reverse_last Nat.underscore_not_in_toDigits] at hl
  have hn := congrArg (Nat.ofDigitChars 10 · 0) (reverse_injective hl)
  simpa only [Nat.ofDigitChars_ten_toDigits] using hn

/-! ## What is known while calls are under way -/

/-- What a create relies on once it has looked its key up. -/
def Expects (m : OrderManager) : Section → Prop
  | .load draft id _ _ =>
    m.byIdem.lookup draft.idempotencyKey = some id ∨ m.byIdem.lookup draft.idempotencyKey = none
  | .number draft _ _ => m.byIdem.lookup draft.idempotencyKey = none
  | .enter order => m.byIdem.lookup order.idempotencyKey = none ∧ order.status = .created
  | .find _ _ _ | .transition _ _ _ _ => True

/-- No order may be entered while another create of its key is between its lookup and
its own order. -/
def Exclusive (_ : OrderManager) (k k' : Section) : Prop :=
  ∀ key ∈ k.entering, k'.pending ≠ some key

instance (m : OrderManager) (k k' : Section) : Decidable (Exclusive m k k') :=
  inferInstanceAs (Decidable (∀ key ∈ k.entering, k'.pending ≠ some key))

def Issued (m : OrderManager) (id : String) : Prop :=
  ∃ millis n, n < m.idCounter ∧ id = orderId millis n

open Section

/-- In how many places the order of `id` is: on its way into the mirror, or in it. -/
def places (s : State OrderManager Section) (id : String) : Nat :=
  s.running.countP (carries id) + (s.shared.get id).isSome.toNat

structure Sound (s : State OrderManager Section) : Prop where
  consistent : s.shared.Consistent
  expects : Relies Expects s
  single : ∀ id, places s id ≤ 1
  issued : ∀ id, 0 < places s id → Issued s.shared id
  /-- An order that a create has found and the mirror has since evicted is gone for good. -/
  dropped : ∀ draft id now millis, .load draft id now millis ∈ s.running →
    s.shared.byIdem.lookup draft.idempotencyKey = none → Issued s.shared id ∧ places s id = 0

theorem sound_new (cap : Nat) : Sound ⟨.new cap, []⟩ where
  consistent := consistent_new cap
  expects k hk := by cases hk
  single id := by simp [places, OrderManager.get, OrderManager.new]
  issued id h := by simp [places, OrderManager.get, OrderManager.new] at h
  dropped draft id now millis h := by cases h

/-! ## Entering an order -/

structure Entered (m m' : OrderManager) (o : Order) : Prop where
  consistent : m'.Consistent
  self : m'.get o.id = some o
  key : m'.byIdem.lookup o.idempotencyKey = some o.id
  others : ∀ id, id ≠ o.id → m'.get id = m.get id ∨
    m'.get id = none ∧ (∃ o', m.get id = some o' ∧ o'.status.isTerminal = true) ∧
      m.cap ≤ m.fifo.length
  keys : ∀ key, key ≠ o.idempotencyKey →
    m'.byIdem.lookup key = m.byIdem.lookup key ∨ m'.byIdem.lookup key = none
  idCounter : m'.idCounter = m.idCounter

variable {m : OrderManager} {o : Order}

open Option

theorem entered_insertMirror (h : m.Consistent) (hi : m.get o.id = none)
    (hk : m.byIdem.lookup o.idempotencyKey = none) (hst : o.status = .created) :
    Entered m (m.insertMirror o) o := by
  have he := consistent_enter h hi hk
  have hsh : (m.enter o).Shrinks (m.insertMirror o) := shrinks_evictLoop _ he
  have hse : (m.insertMirror o).get o.id = some o := by
    rcases hsh.orders o.id with heq | ⟨-, o', ho', hte⟩
    · rw [heq, get_enter, if_pos rfl]
    · rw [get_enter, if_pos rfl] at ho'
      obtain rfl := some.inj ho'
      rw [hst] at hte
      contradiction
  refine ⟨hsh.consistent, hse, hsh.consistent.known _ _ hse, fun id hne => ?_,
    fun key hne => ?_, idCounter_evictLoop _ _⟩
  · by_cases hf : m.cap ≤ m.fifo.length
    · rcases hsh.orders id with heq | ⟨hn, o', ho', hte⟩
      · exact .inl (by rw [heq, get_enter, if_neg hne])
      · rw [get_enter, if_neg hne] at ho'
        exact .inr ⟨hn, ⟨o', ho', hte⟩, hf⟩
    · have hl : (m.enter o).fifo.length ≤ (m.enter o).cap := by
        show (if (m.get o.id).isNone then m.fifo ++ [o.id] else m.fifo).length ≤ m.cap
        split
        · rw [length_append, length_singleton]
          omega
        · omega
      left
      show (m.enter o).evict.get id = m.get id
      rw [evict_of_le hl, get_enter, if_neg hne]
  · rcases hsh.keys key with heq | hn
    · exact .inl (by rw [heq, lookup_enter, if_neg hne])
    · exact .inr hn

/-! ## One step -/

variable {s t : State OrderManager Section} {a : Label Section Reply}

theorem Sound.fresh (h : Sound s) (hk : enter o ∈ s.running) : s.shared.get o.id = none := by
  have hc : 0 < s.running.countP (carries o.id) := countP_pos_iff.mpr ⟨_, hk, by simp [carries]⟩
  have hsi := h.single o.id
  unfold places at hsi
  cases hg : s.shared.get o.id with
  | none => rfl
  | some o' =>
    rw [hg, isSome_some, Bool.toNat_true] at hsi
    omega

theorem Sound.entered (h : Sound s) (hk : enter o ∈ s.running) :
    Entered s.shared (s.shared.insertMirror o) o := by
  obtain ⟨hke, hst⟩ : s.shared.byIdem.lookup o.idempotencyKey = none ∧ o.status = .created :=
    h.expects _ hk
  exact entered_insertMirror h.consistent (h.fresh hk) hke hst

variable {id : String} {k k' : Section} {key : String} {reason : Option String} {target : OrderStatus}

theorem get_moved {now : Int} (ho : m.get id = some o) (id' : String) :
    ({ m with orders := m.orders.insert id (o.moved target reason now) } : OrderManager).get id' =
      (m.get id').map fun o' => if id' = id then o.moved target reason now else o' := by
  show (m.orders.insert id _).lookup id' = _
  by_cases h : id' = id
  · rw [h, ho]
    simp
  · rw [Finmap.lookup_insert_of_ne _ h]
    simp only [h]
    exact map_id'.symm

theorem consistent_moved {now : Int} (h : m.Consistent) (ho : m.get id = some o) :
    ({ m with orders := m.orders.insert id (o.moved target reason now) } :
      OrderManager).Consistent where
  indexed key id' hk := by
    obtain ⟨o', ho', hk'⟩ := h.indexed key id' hk
    rw [get_moved ho, ho']
    by_cases hi : id' = id
    · subst hi
      obtain rfl := some.inj (ho.symm.trans ho')
      exact ⟨o.moved target reason now, by rw [map_some, if_pos rfl], hk'⟩
    · exact ⟨o', by rw [map_some, if_neg hi], hk'⟩
  known id' o' ho' := by
    rw [get_moved ho] at ho'
    obtain ⟨o'', ho'', he⟩ := map_eq_some_iff.mp ho'
    have hk := h.known id' o'' ho''
    split at he
    · next hi =>
      subst hi
      obtain rfl := some.inj (ho.symm.trans ho'')
      rw [← he]
      exact hk
    · rw [← he]
      exact hk
  named id' o' ho' := by
    rw [get_moved ho] at ho'
    obtain ⟨o'', ho'', he⟩ := map_eq_some_iff.mp ho'
    have hn := h.named id' o'' ho''
    split at he
    · next hi =>
      subst hi
      obtain rfl := some.inj (ho.symm.trans ho'')
      rw [← he]
      exact hn
    · rw [← he]
      exact hn

theorem Sound.act_cases (h : Sound s) (hk : k ∈ s.running) :
    (∃ o, k = .enter o ∧ Entered s.shared (act k s.shared).1 o) ∨
    k.entering = none ∧ (act k s.shared).1.Consistent ∧
      (∀ id, ((act k s.shared).1.get id).isSome = (s.shared.get id).isSome) ∧
      (act k s.shared).1.byIdem = s.shared.byIdem := by
  cases k with
  | find draft now millis =>
    refine .inr ⟨rfl, ?_⟩
    simp only [act]
    split
    · exact ⟨h.consistent, fun _ => rfl, rfl⟩
    · split <;> exact ⟨h.consistent, fun _ => rfl, rfl⟩
  | load draft id now millis =>
    refine .inr ⟨rfl, ?_⟩
    simp only [act]
    split <;> exact ⟨h.consistent, fun _ => rfl, rfl⟩
  | number draft now millis =>
    exact .inr ⟨rfl, ⟨h.consistent.indexed, h.consistent.known, h.consistent.named⟩, fun _ => rfl, rfl⟩
  | enter o => exact .inl ⟨o, rfl, h.entered hk⟩
  | transition id target reason now =>
    refine .inr ⟨rfl, ?_⟩
    show (s.shared.transition id target reason now).2.Consistent ∧
      (∀ id', ((s.shared.transition id target reason now).2.get id').isSome = _) ∧
      (s.shared.transition id target reason now).2.byIdem = _
    rcases s.shared.transition_cases id target reason now with he | ⟨o, ho, he⟩
    · rw [he]
      exact ⟨h.consistent, fun _ => rfl, rfl⟩
    · rw [he]
      refine ⟨consistent_moved h.consistent ho, fun id' => ?_, rfl⟩
      rw [get_moved ho, isSome_map]

theorem carries_next (hnext : (act k m).2 = .inl k') (hc : k'.carries id = true) :
    ∃ millis, id = orderId millis m.idCounter ∧
    (act k m).1 = { m with idCounter := m.idCounter + 1 } := by
  cases k with
  | find draft now millis =>
    simp only [act] at hnext
    split at hnext
    · cases hnext
    · split at hnext <;> cases hnext <;> cases hc
  | load draft id' now millis =>
    simp only [act] at hnext
    split at hnext <;> cases hnext
    cases hc
  | number draft now millis =>
    obtain rfl := Sum.inl.inj hnext
    have hi : orderId millis m.idCounter = id := by
      simpa [carries, OrderDraft.order] using hc
    exact ⟨millis, hi.symm, rfl⟩
  | enter o | transition id' target reason now => cases hnext

theorem load_next {draft : OrderDraft} {now millis : Int}
    (hnext : (act k m).2 = .inl (.load draft id now millis)) :
    (act k m).1.byIdem.lookup draft.idempotencyKey = some id := by
  cases k with
  | find draft' now' millis' =>
    simp only [act] at hnext ⊢
    split at hnext
    · cases hnext
    · next hbl =>
      split at hnext
      · next id' hi =>
        cases hnext
        rw [if_neg hbl, hi]
      · cases hnext
  | load draft' id' now' millis' =>
    simp only [act] at hnext
    split at hnext <;> cases hnext
  | number draft' now' millis' | enter o | transition id' target reason now' => cases hnext

theorem idCounter_act (h : Sound s) (hk : k ∈ s.running) :
    s.shared.idCounter ≤ (act k s.shared).1.idCounter := by
  cases k with
  | find draft now millis =>
    simp only [act]
    split
    · exact le_refl _
    · split <;> exact le_refl _
  | load draft id' now millis =>
    simp only [act]
    split <;> exact le_refl _
  | number draft now millis => exact Nat.le_succ _
  | enter o => exact (h.entered hk).idCounter.ge
  | transition id target reason now =>
    show s.shared.idCounter ≤ (s.shared.transition id target reason now).2.idCounter
    rcases s.shared.transition_cases id target reason now with he | ⟨o, -, he⟩ <;> rw [he]

theorem not_issued_next (m : OrderManager) (millis : Int) :
    ¬ Issued m (orderId millis m.idCounter) := by
  rintro ⟨millis', n, hl, he⟩
  have := orderId_number he
  omega

theorem Sound.issued_step (h : Sound s) (hs : Step act IsCall s a t) (hi : Issued s.shared id) :
    Issued t.shared id := by
  obtain ⟨millis, n, hl, rfl⟩ := hi
  refine ⟨millis, n, hl.trans_le ?_, rfl⟩
  rcases hs.shared_cases with ⟨k, -, hsh⟩ | ⟨k, hk, -, hsh⟩
  · rw [hsh]
  · rw [hsh]
    exact idCounter_act h hk

theorem Sound.carried_step (hs : Step act IsCall s a t) (hi : Issued s.shared id) :
    t.running.countP (carries id) ≤ s.running.countP (carries id) := by
  rcases hs.countP_cases (carries id) with
    ⟨k, -, hca, -, hc⟩ | ⟨k, -, -, -, hc⟩
  · have hn : carries id k = false := by cases hca <;> rfl
    rw [hc, hn]
    rfl
  · rcases countP_continuing (carries id) (act k s.shared).2 with
      hzero | ⟨k', hnext, hcar, -⟩
    · omega
    · obtain ⟨millis, rfl, -⟩ := carries_next hnext hcar
      exact absurd hi (not_issued_next _ _)

theorem Sound.places_le (h : Sound s) (hk : k ∈ s.running) (hsh : t.shared = (act k s.shared).1)
    (hco : t.running.countP (carries id) + (k.carries id).toNat =
    s.running.countP (carries id)) : places t id ≤ places s id := by
  unfold places
  rw [hsh]
  rcases h.act_cases hk with ⟨o, rfl, he⟩ | ⟨hne, -, hg, -⟩
  · by_cases hi : id = o.id
    · subst hi
      rw [he.self, isSome_some, Bool.toNat_true]
      have hc : (enter o).carries o.id = true := by simp [carries]
      rw [hc, Bool.toNat_true] at hco
      omega
    · rcases he.others id hi with heq | ⟨hn, -⟩
      · rw [heq]
        omega
      · rw [hn, isSome_none, Bool.toNat_false]
        omega
  · rw [hg]
    omega

theorem Sound.places_step (h : Sound s) (hs : Step act IsCall s a t) (id : String) :
    places t id ≤ places s id ∨ ¬ Issued s.shared id ∧ places t id ≤ 1 ∧ Issued t.shared id := by
  rcases hs.countP_cases (carries id) with
    ⟨k, -, hca, hsh, hc⟩ | ⟨k, hk, -, hsh, hc⟩
  · have hn : carries id k = false := by cases hca <;> rfl
    unfold places
    rw [hsh, hc, hn]
    exact .inl (le_refl _)
  rcases countP_continuing (carries id) (act k s.shared).2 with
    hzero | ⟨k', hnext, hcar, ho⟩
  · exact .inl (h.places_le hk hsh (by omega))
  · obtain ⟨millis, rfl, ha⟩ := carries_next hnext hcar
    have hne := not_issued_next s.shared millis
    have hf : places s (orderId millis s.shared.idCounter) = 0 := by
      by_contra hpos
      exact hne (h.issued _ (Nat.pos_of_ne_zero hpos))
    have hg : t.shared.get (orderId millis s.shared.idCounter) =
        s.shared.get (orderId millis s.shared.idCounter) := by
      rw [hsh, ha]
      rfl
    refine .inr ⟨hne, ?_, millis, s.shared.idCounter, ?_, rfl⟩
    · unfold places at hf ⊢
      rw [hg]
      omega
    · rw [hsh, ha]
      exact Nat.lt_succ_self _

theorem Sound.expects_next (h : Sound s) (hk : k ∈ s.running) (hnext : (act k s.shared).2 = .inl k')
    : Expects (act k s.shared).1 k' := by
  have he := h.expects k hk
  rcases h.act_cases hk with ⟨o, rfl, -⟩ | ⟨-, -, -, hi⟩
  · cases hnext
  cases k with
  | find draft now millis =>
    simp only [act] at hnext
    split at hnext
    · cases hnext
    · split at hnext
      · next id hid =>
        obtain rfl := Sum.inl.inj hnext
        exact .inl (hi ▸ hid)
      · next hn =>
        obtain rfl := Sum.inl.inj hnext
        show (act _ s.shared).1.byIdem.lookup _ = none
        rwa [hi]
  | load draft id now millis =>
    simp only [act] at hnext
    split at hnext
    · cases hnext
    · next hg =>
      obtain rfl := Sum.inl.inj hnext
      show (act _ s.shared).1.byIdem.lookup _ = none
      rw [hi]
      -- the index never leads to an order that is gone
      rcases he with hf | hn
      · obtain ⟨o, ho, -⟩ := h.consistent.indexed _ _ hf
        rw [hg] at ho
        contradiction
      · exact hn
  | number draft now millis =>
    obtain rfl := Sum.inl.inj hnext
    exact ⟨he, rfl⟩
  | enter o | transition id target reason now => cases hnext

theorem Sound.expects_other (h : Sound s) (hk : k ∈ s.running) (hexp : Expects s.shared k')
    (hex : Exclusive s.shared k k') :
    Expects (act k s.shared).1 k' := by
  rcases h.act_cases hk with ⟨o, rfl, he⟩ | ⟨-, -, -, hi⟩
  · have hke : ∀ key, k'.pending = some key →
        (act (.enter o) s.shared).1.byIdem.lookup key = s.shared.byIdem.lookup key ∨
          (act (.enter o) s.shared).1.byIdem.lookup key = none := by
      intro key hpending
      refine he.keys key ?_
      rintro rfl
      exact hex _ rfl hpending
    cases k' with
    | load draft id now millis =>
      rcases hke _ rfl with heq | hn
      · simpa only [Expects, heq] using hexp
      · exact .inr hn
    | number draft now millis =>
      rcases hke _ rfl with heq | hn
      · simpa only [Expects, heq] using hexp
      · exact hn
    | enter o' =>
      rcases hke _ rfl with heq | hn
      · simpa only [Expects, heq] using hexp
      · exact ⟨hn, hexp.2⟩
    | find draft now millis | transition id target reason now => exact trivial
  · have hc : Expects (act k s.shared).1 k' = Expects s.shared k' := by
      cases k' <;> simp only [Expects, hi]
    rwa [hc]

theorem Sound.dropped_act (h : Sound s) (hs : Step act IsCall s a t) (hk : k ∈ s.running)
    (hsh : t.shared = (act k s.shared).1) (hbe : s.shared.byIdem.lookup key = some id)
    (ha : t.shared.byIdem.lookup key = none) :
    Issued t.shared id ∧ places t id = 0 := by
  obtain ⟨o, ho, hke⟩ := h.consistent.indexed key id hbe
  have hsi := h.single id
  have hi : Issued s.shared id := h.issued id (by simp [places, ho])
  have hc := Sound.carried_step hs hi
  refine ⟨h.issued_step hs hi, ?_⟩
  rcases h.act_cases hk with ⟨o', rfl, he⟩ | ⟨-, -, -, hid⟩
  · have hn : id ≠ o'.id := by
      rintro rfl
      rw [h.fresh hk] at ho
      contradiction
    rcases he.others id hn with hsa | ⟨hg, -⟩
    · have hkept := he.consistent.known id o (hsa.trans ho)
      rw [← hsh, hke, ha] at hkept
      contradiction
    · unfold places at hsi ⊢
      rw [ho, isSome_some, Bool.toNat_true] at hsi
      rw [hsh, hg, isSome_none, Bool.toNat_false]
      omega
  · rw [hsh, hid, hbe] at ha
    contradiction

theorem Sound.step (h : Sound s) (ha : Apart Exclusive ⟨s, a, t⟩)
    (hs : Step act IsCall s a t) : Sound t where
  consistent := by
    rcases hs.shared_cases with ⟨k, -, hsh⟩ | ⟨k, hk, -, hsh⟩
    · rw [hsh]
      exact h.consistent
    · rw [hsh]
      rcases h.act_cases hk with ⟨o, -, he⟩ | ⟨-, hco, -⟩
      · exact he.consistent
      · exact hco
  expects := by
    refine h.expects.step ha hs (fun k hk => ?_) (fun k hk k' _ => h.expects_next hk)
      fun k hk k' _ => h.expects_other hk
    cases hk <;> trivial
  single id := by
    rcases h.places_step hs id with hle | ⟨-, hle, -⟩
    · exact hle.trans (h.single id)
    · exact hle
  issued id hpos := by
    rcases h.places_step hs id with hle | ⟨-, -, hi⟩
    · exact h.issued_step hs (h.issued id (hpos.trans_le hle))
    · exact hi
  dropped draft id now millis hl hn := by
    have hold : .load draft id now millis ∈ s.running →
        s.shared.byIdem.lookup draft.idempotencyKey = none →
        Issued t.shared id ∧ places t id = 0 := by
      intro hm hbe
      obtain ⟨hi, hz⟩ := h.dropped draft id now millis hm hbe
      refine ⟨h.issued_step hs hi, ?_⟩
      rcases h.places_step hs id with hle | ⟨hno, -⟩
      · omega
      · exact absurd hi hno
    rcases hs.mem_running hl with
      ⟨_, -, hsh, hc | hm⟩ | ⟨k, hk, -, hsh, hm | hnext⟩
    · cases hc
    · exact hold hm (hsh ▸ hn)
    · have hm := mem_of_mem_erase hm
      rcases h.expects _ hm with hf | hg
      · exact h.dropped_act hs hk hsh hf hn
      · exact hold hm hg
    · rw [hsh, load_next hnext] at hn
      contradiction

/-! ## What creates return -/

section

variable (e : Entry (State OrderManager Section) (Label Section Reply))

def returnedOrder : Option (String × Order) :=
  match e.label with
  | .act k (.inr (.created (.ok o))) => k.key.map fun key => (key, o)
  | _ => none

def createdOrder : Option Order :=
  match e.label with
  | .act (.enter o) _ => some o
  | _ => none

end

/-- The step drops the terminal order of `id` from a mirror that is full. -/
def Evicts (id : String) (e : Entry (State OrderManager Section) (Label Section Reply)) : Prop :=
  (∃ o, e.pre.shared.get id = some o ∧ o.status.isTerminal = true) ∧
    e.post.shared.get id = none ∧ e.pre.shared.cap ≤ e.pre.shared.fifo.length

theorem Sound.returned (h : Sound s) (hs : Step act IsCall s a t)
    (hr : returnedOrder ⟨s, a, t⟩ = some (key, o)) :
    t.shared.byIdem.lookup key = some o.id ∧
    (s.shared.byIdem.lookup key = some o.id ∧ createdOrder ⟨s, a, t⟩ = none ∨
      s.shared.byIdem.lookup key = none) := by
  rcases hs.shared_cases with ⟨k, rfl, -⟩ | ⟨k, hk, rfl, hsh⟩
  · cases hr
  rw [hsh]
  cases k with
  | find draft now millis =>
    simp only [returnedOrder, act] at hr
    split at hr
    · next hl =>
      split at hl
      · cases hl
      · split at hl <;> cases hl
    · cases hr
  | load draft id now millis =>
    simp only [returnedOrder, act] at hr ⊢
    cases ho : s.shared.get id with
    | none => simp [ho] at hr
    | some existing =>
      simp only [ho, Section.key, map_some, some.injEq, Prod.mk.injEq] at hr
      obtain ⟨rfl, rfl⟩ := hr
      rw [h.consistent.named id existing ho]
      rcases h.expects _ hk with hf | hg
      · exact ⟨hf, .inl ⟨hf, rfl⟩⟩
      · obtain ⟨-, hz⟩ := h.dropped draft id now millis hk hg
        simp [places, ho] at hz
  | number draft now millis | transition id target reason now => cases hr
  | enter o' =>
    obtain ⟨rfl, rfl⟩ := Prod.mk.inj (some.inj hr)
    exact ⟨(h.entered hk).key, .inr (h.expects _ hk).1⟩

theorem Sound.kept (h : Sound s) (hs : Step act IsCall s a t)
    (hbe : s.shared.byIdem.lookup key = some id) :
    t.shared.byIdem.lookup key = some id ∨ Evicts id ⟨s, a, t⟩ := by
  rcases hs.shared_cases with ⟨k, -, hsh⟩ | ⟨k, hk, -, hsh⟩
  · exact .inl (hsh ▸ hbe)
  obtain ⟨o, ho, rfl⟩ := h.consistent.indexed key id hbe
  rcases h.act_cases hk with ⟨o', rfl, he⟩ | ⟨-, -, -, hi⟩
  · have hn : id ≠ o'.id := by
      rintro rfl
      rw [h.fresh hk] at ho
      contradiction
    rcases he.others id hn with hsa | ⟨hg, hte, hf⟩
    · exact .inl (hsh ▸ he.consistent.known id o (hsa.trans ho))
    · exact .inr ⟨hte, hsh ▸ hg, hf⟩
  · exact .inl (by rw [hsh, hi, hbe])

variable {tr : List (Entry (State OrderManager Section) (Label Section Reply))}

/-- In every interleaving without overlapping creates of one key, a later create of a
key returns the order the earlier one returned, and makes none of its own, unless that
order was evicted in between: terminal, from a full mirror. -/
theorem key_leads_to_one_order {cap : Nat} (hr : Run (Step act IsCall) ⟨.new cap, []⟩ tr t)
    (hapart : ∀ e ∈ tr, Apart Exclusive e)
    {tr1 tr2 tr3 : List (Entry (State OrderManager Section) (Label Section Reply))}
    {e1 e2 : Entry (State OrderManager Section) (Label Section Reply)}
    (htr : tr = tr1 ++ e1 :: (tr2 ++ e2 :: tr3)) {key : String} {o1 o2 : Order}
    (h1 : returnedOrder e1 = some (key, o1)) (h2 : returnedOrder e2 = some (key, o2)) :
    o2.id = o1.id ∧ createdOrder e2 = none ∨ ∃ e ∈ tr2, Evicts o1.id e := by
  subst htr
  have hste := fun s a t (h : Sound s) (hC : Apart Exclusive ⟨s, a, t⟩) hs =>
    h.step (s := s) (a := a) (t := t) hC hs
  obtain ⟨hr1, hs1, hr2⟩ := hr.around
  obtain ⟨hrm, hs2, -⟩ := hr2.around
  have hso : Sound e1.pre := hr1.invariant_of_entries hste
    (fun e he => hapart e (List.mem_append_left _ he)) (sound_new cap)
  have hs' : Sound e1.post := hso.step (hapart e1 (by simp)) hs1
  by_cases hevi : ∃ e ∈ tr2, Evicts o1.id e
  · exact .inr hevi
  left
  -- along the stretch without an eviction the key leads to the first order
  obtain ⟨hsou, hke⟩ : Sound e2.pre ∧ e2.pre.shared.byIdem.lookup key = some o1.id := by
    refine hrm.invariant_of_entries
      (I := fun s => Sound s ∧ s.shared.byIdem.lookup key = some o1.id)
      (P := fun e => Apart Exclusive e ∧ ¬ Evicts o1.id e) ?_ ?_
      ⟨hs', (hso.returned hs1 h1).1⟩
    · intro s a t ⟨hs, hk⟩ ⟨hC, hn⟩ hst
      exact ⟨hs.step hC hst, (hs.kept hst hk).resolve_right hn⟩
    · intro e he
      refine ⟨hapart e (by simp [he]), fun hev => hevi ⟨e, he, hev⟩⟩
  rcases (hsou.returned hs2 h2).2 with ⟨hsa, hno⟩ | hf
  · exact ⟨some.inj (hsa.symm.trans hke), hno⟩
  · rw [hke] at hf
    contradiction

end SniperBot.Orders
