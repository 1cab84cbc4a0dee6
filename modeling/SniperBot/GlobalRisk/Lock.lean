import SniperBot.GlobalRisk.Admission

/-!
# The admission lock

While its lease lasts, the lock belongs to one call: what the sections under it do
excludes one another. A call that goes on after its lease has lapsed is not
excluded by anything.
-/

namespace SniperBot.GlobalRisk

open Lib.Runs Lib.Interleaving Section

namespace Section

/-- The lock as the call has taken it, until it gives it back. -/
def hold : Section → Option Hold
  | .purge _ hold | .select _ hold | .install _ hold _ | .number _ hold | .judge _ hold _ _
  | .date _ hold _ _ | .create _ hold _ | .reserve _ hold _ | .unlock hold _ => some hold
  | .refuse _ hold | .leave _ hold _ => hold
  | _ => none

/-- The lock under which the section decides, or prepares or carries out a decision. -/
def critical : Section → Option Hold
  | .refuse _ _ | .leave _ _ _ | .unlock _ _ => none
  | k => k.hold

def heldBy (n : Nat) (k : Section) : Bool := k.hold.any (·.holder = n)

theorem hold_of_critical {k : Section} {h : Hold} (hk : k.critical = some h) : k.hold = some h := by
  cases k <;> first | exact hk | cases hk

theorem heldBy_iff {n : Nat} {k : Section} :
    k.heldBy n = true ↔ ∃ h, k.hold = some h ∧ h.holder = n := by
  cases hh : k.hold <;> simp [heldBy, hh]

end Section

abbrev Event := Entry (State Cluster Section) (Label Section Reply)

/-- No section of a decision runs after the lease under which it decides has lapsed. -/
def Timely (e : Event) : Prop :=
  match e.label with
  | .act k _ => ∀ h ∈ k.critical, e.pre.shared.now < h.leaseUntil
  | .call _ => True

instance (e : Event) : Decidable (Timely e) := by
  unfold Timely
  split <;> infer_instance

variable {S : Setting} {c : Cluster} {k k' : Section} {h h' : Hold}

/-! ## What a section does to the time and the lock -/

theorem now_le_act (S : Setting) (k : Section) (c : Cluster) : c.now ≤ (act S k c).1.now := by
  cases k with
  | wait millis =>
    show c.now ≤ c.now + millis
    omega
  | gate | acquire | purge | select | judge | create | release =>
    simp only [act]
    repeat' split
    all_goals exact le_rfl
  | _ => exact le_rfl

theorem lock_act (S : Setting) (k : Section) (c : Cluster) : (act S k c).1.lock = c.lock ∧
      (act S k c).1.nextHolder = c.nextHolder ∨
    (∃ ask, c.lockIsFree = true ∧ act S k c =
      (c.takeLock.1, .inl (.purge ask c.takeLock.2)) ∧ k.hold = none) ∨
    ∃ h verdict, k = .unlock h verdict := by
  cases k with
  | acquire ask retries =>
    simp only [act]
    split
    · exact .inl ⟨rfl, rfl⟩
    · split
      · next hf => exact .inr (.inl ⟨ask, hf, rfl, rfl⟩)
      · split <;> exact .inl ⟨rfl, rfl⟩
  | unlock h verdict => exact .inr (.inr ⟨h, verdict, rfl⟩)
  | gate | purge | select | judge | create | release =>
    simp only [act]
    repeat' split
    all_goals exact .inl ⟨rfl, rfl⟩
  | _ => exact .inl ⟨rfl, rfl⟩

theorem hold_of_act (hnext : (act S k c).2 = .inl k') (hh : k'.hold = some h) :
    k.hold = some h ∧ (∀ h verdict, k ≠ .unlock h verdict) ∨
    h = c.takeLock.2 ∧ c.lockIsFree = true ∧ (act S k c).1 = c.takeLock.1 := by
  cases k with
  | acquire ask retries =>
    simp only [act] at hnext ⊢
    split at hnext
    · cases hnext
      cases hh
    · split at hnext
      · next hfa hf =>
        cases hnext
        obtain rfl := Option.some.inj hh
        right
        rw [if_neg hfa, if_pos hf]
        exact ⟨rfl, hf, rfl⟩
      · split at hnext <;> cases hnext <;> cases hh
  | gate | release =>
    simp only [act] at hnext
    split at hnext <;> cases hnext <;> cases hh
  | purge | select | judge | create | leave =>
    simp only [act] at hnext
    repeat' split at hnext
    all_goals
      cases hnext
      try exact .inl ⟨hh, by simp⟩
  | install | number | date | reserve | refuse =>
    cases hnext
    exact .inl ⟨hh, by simp⟩
  | wait | unlock | deleteRow => cases hnext

/-! ## One holder at a time -/

variable {s t : State Cluster Section} {a : Label Section Reply}

structure Exclusive (s : State Cluster Section) : Prop where
  issued : ∀ k ∈ s.running, ∀ h, k.hold = some h → h.holder < s.shared.nextHolder
  single : ∀ n, s.running.countP (heldBy n) ≤ 1
  held : ∀ k ∈ s.running, ∀ h, k.hold = some h → s.shared.now < h.leaseUntil →
    s.shared.lock = some h

theorem hold_of_isCall (hk : IsCall k) : k.hold = none := by
  cases hk <;> rfl

section

variable (hex : Exclusive s) (hk : k ∈ s.running) (hk' : k' ∈ s.running.erase k)
  (hh : k.hold = some h) (hh' : k'.hold = some h')

include hex hk hk' hh hh'

theorem Exclusive.ne_holder : h'.holder ≠ h.holder := by
  intro he
  have hpe := (List.perm_cons_erase hk).countP_eq (heldBy h.holder)
  have hse : k.heldBy h.holder = true := heldBy_iff.mpr ⟨h, hh, rfl⟩
  have ho : 0 < (s.running.erase k).countP (heldBy h.holder) :=
    List.countP_pos_iff.mpr ⟨k', hk', heldBy_iff.mpr ⟨h', hh', he⟩⟩
  have hsi := hex.single h.holder
  rw [hpe, List.countP_cons_of_pos hse] at hsi
  omega

theorem Exclusive.lapsed (hti : s.shared.now < h.leaseUntil) : ¬ s.shared.now < h'.leaseUntil := by
  intro ht'
  have hl := hex.held k hk h hh hti
  rw [hex.held k' (List.mem_of_mem_erase hk') h' hh' ht'] at hl
  exact hex.ne_holder hk hk' hh hh' (congrArg Hold.holder (Option.some.inj hl))

end

theorem lockIsFree_eq_false (hl : c.lock = some h) (hti : c.now < h.leaseUntil) :
    c.lockIsFree = false := by
  simp only [Cluster.lockIsFree, hl, decide_eq_false_iff_not]
  omega

theorem nextHolder_le_act (S : Setting) (k : Section) (c : Cluster) :
    c.nextHolder ≤ (act S k c).1.nextHolder := by
  rcases lock_act S k c with
    ⟨-, hsa⟩ | ⟨ask, -, hta, -⟩ | ⟨h, verdict, rfl⟩
  · exact hsa.ge
  · rw [hta]
    exact Nat.le_succ _
  · exact le_rfl

section

variable (hex : Exclusive s) (hs : Step (act S) IsCall s a t)

include hex hs

theorem Exclusive.issued_step :
    ∀ k ∈ t.running, ∀ h, k.hold = some h → h.holder < t.shared.nextHolder := by
  intro k' hk' h hh
  rcases hs.mem_running hk' with ⟨k, -, hsh, hc | hm⟩ | ⟨k, hk, -, hsh, hm | hnext⟩
  · rw [hold_of_isCall hc] at hh
    cases hh
  · rw [hsh]
    exact hex.issued k' hm h hh
  · rw [hsh]
    exact (hex.issued k' (List.mem_of_mem_erase hm) h hh).trans_le (nextHolder_le_act S k _)
  · rw [hsh]
    rcases hold_of_act hnext hh with ⟨hold, -⟩ | ⟨rfl, -, hta⟩
    · exact (hex.issued k hk h hold).trans_le (nextHolder_le_act S k _)
    · rw [hta]
      exact Nat.lt_succ_self _

theorem Exclusive.single_step (n : Nat) : t.running.countP (heldBy n) ≤ 1 := by
  have hbe := hex.single n
  rcases hs.countP_cases (heldBy n) with
    ⟨k, -, hca, -, hc⟩ | ⟨k, hk, -, -, hc⟩
  · have hnot : k.heldBy n = false := by simp [heldBy, hold_of_isCall hca]
    rw [hnot] at hc
    simp only [Bool.toNat_false] at hc
    omega
  · rcases countP_continuing (heldBy n) (act S k s.shared).2 with
      hzero | ⟨k', hnext, hhe, ho⟩
    · omega
    · obtain ⟨h, hh, hn⟩ := heldBy_iff.mp hhe
      rcases hold_of_act hnext hh with ⟨hold, -⟩ | ⟨rfl, -, -⟩
      · have hse : k.heldBy n = true := heldBy_iff.mpr ⟨h, hold, hn⟩
        rw [hse] at hc
        simp only [Bool.toNat_true] at hc
        omega
      · -- a new holder: nobody had its number
        have hno : s.running.countP (heldBy n) = 0 := by
          refine List.countP_eq_zero.mpr fun k₀ hk₀ hheld₀ => ?_
          obtain ⟨h₀, hh₀, hn₀⟩ := heldBy_iff.mp hheld₀
          have hl := hex.issued k₀ hk₀ h₀ hh₀
          have hne : s.shared.nextHolder = n := hn
          omega
        omega

theorem Exclusive.held_step : ∀ k ∈ t.running, ∀ h, k.hold = some h → t.shared.now < h.leaseUntil →
    t.shared.lock = some h := by
  intro k' hk' h hh hti
  rcases hs.mem_running hk' with ⟨k, -, hsh, hc | hm⟩ | ⟨k, hk, -, hsh, hm | hnext⟩
  · rw [hold_of_isCall hc] at hh
    cases hh
  · rw [hsh] at hti ⊢
    exact hex.held k' hm h hh hti
  · rw [hsh] at hti ⊢
    have hnow := now_le_act S k s.shared
    have hl := hex.held k' (List.mem_of_mem_erase hm) h hh (by omega)
    rcases lock_act S k s.shared with
      ⟨hsa, -⟩ | ⟨ask, hf, -, -⟩ | ⟨h₁, verdict, rfl⟩
    · rw [hsa, hl]
    · rw [lockIsFree_eq_false hl (by omega)] at hf
      cases hf
    · have hne := hex.ne_holder hk hm rfl hh
      show s.shared.lock.filter (·.holder ≠ h₁.holder) = some h
      rw [hl, Option.filter_some, if_pos (by simpa using hne)]
  · rw [hsh] at hti ⊢
    rcases hold_of_act hnext hh with ⟨hold, hno⟩ | ⟨rfl, -, hta⟩
    · have hnow := now_le_act S k s.shared
      have hl := hex.held k hk h hold (by omega)
      rcases lock_act S k s.shared with
        ⟨hsa, -⟩ | ⟨ask, -, -, hn⟩ | ⟨h₁, verdict, rfl⟩
      · rw [hsa, hl]
      · rw [hold] at hn
        cases hn
      · exact absurd rfl (hno h₁ verdict)
    · rw [hta]
      rfl

theorem Exclusive.step : Exclusive t := ⟨hex.issued_step hs, hex.single_step hs, hex.held_step hs⟩

end

end SniperBot.GlobalRisk
