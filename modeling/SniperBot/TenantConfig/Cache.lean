import SniperBot.Lib.Interleaving
import SniperBot.TenantConfig.Store

/-!
# The configuration cache of a process

A reload reads the store and writes the cache in two steps and compares no versions. The store
may be out of reach, and its versions only grow.
-/

namespace SniperBot.TenantConfig.Cache

open Lib.Runs Lib.Interleaving

structure Document where
  version : ℕ
  config : TenantConfigModel
  deriving DecidableEq

/-- A cache with the times of its entries, and the store that others write too. -/
structure Process where
  stored : AList fun _ : OrganizationId => Document
  up : Bool
  entries : OrganizationId → Option (Document × ℕ)
  ttl : ℕ
  now : ℕ

open Process

def Process.cached (b : Process) (org : OrganizationId) : ℕ :=
  ((b.entries org).map (·.1.version)).getD 0

def Process.newest (b : Process) (org : OrganizationId) : ℕ :=
  ((b.stored.lookup org).map Document.version).getD 0

inductive CacheOrigin where
  | fresh
  | stale
  | cold

inductive Reply where
  | got (org : OrganizationId) (doc : Document) (origin : CacheOrigin)
  | refreshed (reloaded : ℕ)
  | unavailable
  | done

inductive Caller where
  | get
  | refresh (rest : List (OrganizationId × ℕ)) (reloaded : ℕ)
  | storeWritten
  deriving DecidableEq

inductive Section where
  | get (org : OrganizationId)
  | load (org : OrganizationId) (caller : Caller)
  | insert (org : OrganizationId) (doc : Document) (caller : Caller)
  | serve (org : OrganizationId)
  | refreshVersions
  | refresh (rest : List (OrganizationId × ℕ)) (reloaded : ℕ)
  | write (org : OrganizationId) (doc : Document) (here : Bool)
  | turn (elapsed : ℕ) (up : Bool)
  deriving DecidableEq

def effect : Section → Process → Process
  | .insert org doc _, b => { b with entries := Function.update b.entries org (some (doc, b.now)) }
  | .write org doc _, b =>
    if b.newest org < doc.version then { b with stored := b.stored.insert org doc } else b
  | .turn elapsed up, b => { b with now := b.now + elapsed, up := up }
  | _, b => b

def next : Section → Process → Section ⊕ Reply
  | .get org, b =>
    match b.entries org with
    | some (doc, refreshedAt) =>
      if b.now - refreshedAt < b.ttl then .inr (.got org doc .fresh) else .inl (.load org .get)
    | none => .inl (.load org .get)
  | .load org caller, b =>
    if b.up then
      match b.stored.lookup org, caller with
      | some doc, _ => .inl (.insert org doc caller)
      | none, .refresh rest reloaded => .inl (.refresh rest reloaded)
      | none, _ => .inr (.got org ⟨1, .default⟩ .cold)
    else
      match caller with
      | .refresh _ _ => .inr .unavailable
      | _ => .inl (.serve org)
  | .insert org doc .get, _ => .inr (.got org doc .stale)
  | .insert _ _ (.refresh rest reloaded), _ => .inl (.refresh rest (reloaded + 1))
  | .insert _ _ .storeWritten, _ | .turn _ _, _ => .inr .done
  | .serve org, b =>
    match b.entries org with
    | some (doc, _) => .inr (.got org doc .stale)
    | none => .inr .unavailable
  | .refreshVersions, b =>
    if b.up then .inl (.refresh (b.stored.entries.map fun e => (e.1, e.2.version)) 0)
    else .inr .unavailable
  | .refresh [] reloaded, _ => .inr (.refreshed reloaded)
  | .refresh ((org, version) :: rest) reloaded, b =>
    if (b.entries org).map (·.1.version) = some version then .inl (.refresh rest reloaded)
    else .inl (.load org (.refresh rest reloaded))
  | .write org doc here, b =>
    if b.newest org < doc.version ∧ here then .inl (.insert org doc .storeWritten) else .inr .done

def act (k : Section) (b : Process) : Process × (Section ⊕ Reply) := (effect k b, next k b)

def IsCall : Section → Prop
  | .get _ | .refreshVersions | .write _ _ _ | .turn _ _ => True
  | _ => False

def Section.holds : Section → Option (OrganizationId × ℕ)
  | .insert org doc _ => some (org, doc.version)
  | _ => none

/-- Nobody caches a newer version of a tenant of which another call is about to cache an older
one. -/
def Considerate (_ : Process) (k k' : Section) : Prop :=
  ∀ x ∈ k.holds, ∀ y ∈ k'.holds, x.1 = y.1 → x.2 ≤ y.2

instance (b : Process) (k k' : Section) : Decidable (Considerate b k k') :=
  inferInstanceAs (Decidable (∀ x ∈ k.holds, ∀ y ∈ k'.holds, x.1 = y.1 → x.2 ≤ y.2))

def Ahead (b : Process) : Prop := ∀ org, b.cached org ≤ b.newest org

/-- What is about to be cached is between the cached version and the stored one. -/
def Current (b : Process) (k : Section) : Prop :=
  ∀ x ∈ k.holds, b.cached x.1 ≤ x.2 ∧ x.2 ≤ b.newest x.1

variable {b : Process} {k k' : Section} {org : OrganizationId} {doc : Document}

theorem cached_effect (k : Section) (b : Process) (org : OrganizationId) :
    (effect k b).cached org = b.cached org ∨ k.holds = some (org, (effect k b).cached org) := by
  cases k with
  | insert org' doc caller =>
    by_cases h : org = org'
    · exact .inr (by simp [Section.holds, effect, cached, h])
    · exact .inl (by simp [effect, cached, h])
  | write org' doc here =>
    simp only [effect]
    split <;> exact .inl rfl
  | _ => exact .inl rfl

theorem newest_write (h : b.newest org < doc.version) (here : Bool) (org' : OrganizationId) :
    (effect (.write org doc here) b).newest org' =
    if org' = org then doc.version else b.newest org' := by
  rw [effect, if_pos h]
  obtain rfl | ho := eq_or_ne org' org
  · simp [newest]
  · simp [newest, ho, AList.lookup_insert_ne ho]

theorem newest_le_effect (k : Section) (b : Process) (org : OrganizationId) :
    b.newest org ≤ (effect k b).newest org := by
  cases k with
  | write org' doc here =>
    by_cases hn : b.newest org' < doc.version
    · rw [newest_write hn]
      split
      · next h => exact h ▸ hn.le
      · exact le_rfl
    · simp [effect, hn]
  | _ => exact le_rfl

theorem next_insert {caller : Caller} (h : next k b = .inl (.insert org doc caller)) :
    k = .load org caller ∧ b.stored.lookup org = some doc ∨
    ∃ here, k = .write org doc here ∧ b.newest org < doc.version := by
  unfold Cache.next at h
  repeat' split at h
  all_goals cases h
  · next hd => exact .inl ⟨rfl, hd⟩
  · next here hn => exact .inr ⟨here, rfl, hn.1⟩

theorem Current.next (h : Ahead b) (hn : next k b = .inl k') : Current (effect k b) k' := by
  intro y hy
  cases k' with
  | insert org doc caller =>
    obtain rfl := Option.some.inj hy
    rcases next_insert hn with ⟨rfl, hd⟩ | ⟨here, rfl, hlt⟩
    · have hv : b.newest org = doc.version := by simp [newest, hd]
      exact ⟨hv ▸ h org, hv.ge⟩
    · simp only [newest_write hlt, if_true, le_rfl, and_true]
      rcases cached_effect (.write org doc here) b org with hs | hh
      · exact hs.trans_le ((h org).trans hlt.le)
      · cases hh
  | _ => cases hy

theorem Current.other (hk' : Current b k') (hC : Considerate b k k') : Current (effect k b) k' := by
  refine fun y hy => ⟨?_, (hk' y hy).2.trans (newest_le_effect k b y.1)⟩
  rcases cached_effect k b y.1 with hs | hh
  · exact hs ▸ (hk' y hy).1
  · exact hC _ hh y hy rfl

abbrev Event := Entry (State Process Section) (Label Section Reply)

/-- A get or a `store_written` ends with this version of a tenant. -/
def Shows (e : Event) (org : OrganizationId) (version : ℕ) : Prop :=
  match e.label with
  | .act _ (.inr (.got org' doc origin)) => org' = org ∧ doc.version = version ∧ origin ≠ .cold
  | .act (.insert org' doc .storeWritten) _ => org' = org ∧ doc.version = version
  | _ => False

theorem cached_of_got {origin : CacheOrigin} (h : next k b = .inr (.got org doc origin))
    (hc : origin ≠ .cold) : (effect k b).cached org = doc.version := by
  unfold Cache.next at h
  repeat' split at h
  all_goals cases h
  · next he => simp [effect, cached, he]
  · exact absurd rfl hc
  · simp [effect, cached]
  · next he => simp [effect, cached, he]

variable {s t : State Process Section} {a : Label Section Reply} {tr : List Event}

theorem step (h : Ahead s.shared ∧ Relies Current s) (ha : Apart Considerate ⟨s, a, t⟩)
    (hs : Step act IsCall s a t) : (Ahead t.shared ∧ Relies Current t) ∧
    (∀ org, s.shared.cached org ≤ t.shared.cached org) ∧
    ∀ org version, Shows ⟨s, a, t⟩ org version → t.shared.cached org = version := by
  have hr := h.2.step ha hs (fun k hk => by cases k <;> first | exact hk.elim | rintro _ ⟨⟩)
    (fun _ _ _ _ => Current.next h.1) (fun _ _ _ _ => Current.other)
  cases hs with
  | call hk => exact ⟨⟨h.1, hr⟩, fun _ => le_rfl, fun _ _ hsh => hsh.elim⟩
  | @act b before after k =>
    have hk := h.2 k (List.mem_append_right _ List.mem_cons_self)
    refine ⟨⟨fun org => ?_, hr⟩, fun org => ?_, fun org version hsh => ?_⟩
    · refine le_trans ?_ (newest_le_effect k b org)
      rcases cached_effect k b org with hs | hh
      · exact hs ▸ h.1 org
      · exact (hk _ hh).2
    · rcases cached_effect k b org with hs | hh
      · exact hs.ge
      · exact (hk _ hh).1
    · unfold Shows at hsh
      split at hsh
      · next hg =>
        obtain ⟨rfl, rfl, hc⟩ := hsh
        exact cached_of_got (Label.act.inj hg).2 hc
      · next hw =>
        obtain ⟨rfl, rfl⟩ := hsh
        obtain ⟨rfl, -⟩ := Label.act.inj hw
        simp [act, effect, cached]
      · exact hsh.elim

/-- In every interleaving in which nobody caches a newer version of a tenant of which another
call is about to cache an older one, cached versions never decrease, and no call that ends later
shows an older one. -/
theorem cache_never_goes_back (hb : Ahead b) (hr : Run (Step act IsCall) ⟨b, []⟩ tr t)
    (ha : ∀ e ∈ tr, Apart Considerate e) :
    (∀ e ∈ tr, ∀ org, e.pre.shared.cached org ≤ e.post.shared.cached org) ∧
    tr.Pairwise fun e e' => ∀ org v v', Shows e org v → Shows e' org v' → v ≤ v' := by
  have h0 : Ahead b ∧ Relies Current (⟨b, []⟩ : State Process Section) := ⟨hb, by simp [Relies]⟩
  refine ⟨fun e he => ?_, ?_⟩
  · obtain ⟨hp, hs⟩ := hr.invariant_before (fun _ _ _ h hC hs => (step h hC hs).1) ha h0 he
    exact (step hp (ha e he) hs).2.1
  -- what has been shown so far is not above what is cached
  · refine (hr.invariant_history (I := fun tr s => (Ahead s.shared ∧ Relies Current s) ∧
      (∀ e ∈ tr, ∀ org v, Shows e org v → v ≤ s.shared.cached org) ∧
      tr.Pairwise fun e e' => ∀ org v v', Shows e org v → Shows e' org v' → v ≤ v')
      (fun tr s a t ⟨hI, hshown, hp⟩ hC hs => ?_) ha ⟨h0, by simp, .nil⟩).2.2
    obtain ⟨hI', hm, hsh⟩ := step hI hC hs
    refine ⟨hI', ?_, List.pairwise_append.mpr ⟨hp, List.pairwise_singleton _ _, ?_⟩⟩
    · intro e he org v hv
      rcases List.mem_append.mp he with ho | hl
      · exact (hshown e ho org v hv).trans (hm org)
      · obtain rfl := List.mem_singleton.mp hl
        exact (hsh org v hv).ge
    · intro e he e' hl org v v' hv hv'
      obtain rfl := List.mem_singleton.mp hl
      rw [← hsh org v' hv']
      exact (hshown e he org v hv).trans (hm org)

section

private def plain (version : ℕ) : Document := ⟨version, .default⟩

private def process : Process := ⟨AList.singleton 7 (plain 1), true, fun _ => none, 5, 0⟩

theorem cache_never_goes_back_in_turn : ∃ tr t, Run (Step act IsCall) ⟨process, []⟩ tr t ∧
    (∀ e ∈ tr, Apart Considerate e) ∧ t.shared.cached 7 = 2 ∧
    tr.Pairwise fun e e' => ∀ org v v', Shows e org v → Shows e' org v' → v ≤ v' := by
  obtain ⟨tr, t, hr, ha, hc⟩ : ∃ tr t, Run (Step act IsCall) ⟨process, []⟩ tr t ∧
      (∀ e ∈ tr, Apart Considerate e) ∧ t.shared.cached 7 = 2 :=
    exists_run_of_follow [.call (.get 7), .go 0, .go 0, .go 0, .call (.write 7 (plain 2) true),
      .go 0, .go 0, .call (.get 7), .go 0] (by simp [Move.Allowed, IsCall]) (by decide +kernel)
  exact ⟨tr, t, hr, ha, hc, (cache_never_goes_back (fun _ => Nat.zero_le _) hr ha).2⟩

/-- A get loads the first version and sleeps while the second is written and cached; then it
caches the first again. -/
theorem slow_get_goes_back : ∃ tr t, Run (Step act IsCall) ⟨process, []⟩ tr t ∧
    ∃ e ∈ tr, e.pre.shared.cached 7 = 2 ∧ e.post.shared.cached 7 = 1 :=
  exists_run_of_follow [.call (.get 7), .go 0, .go 0, .call (.write 7 (plain 2) true), .go 0, .go 0,
    .go 0] (by simp [Move.Allowed, IsCall]) (by decide +kernel)

end

end SniperBot.TenantConfig.Cache
