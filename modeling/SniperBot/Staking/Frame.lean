import SniperBot.Lib.Totals
import SniperBot.Staking.Processor

/-!
# What the account operations leave alone

Every reading the program makes of an account depends on its owner and its data
only. That pair is its slot; the lemmas say which slots an operation of an
invoked program may change, and that the token program's bookkeeping survives
the operations that the handlers cause.
-/

namespace SniperBot.Staking

open Lib.MachineInt Lib.Totals World Option U64

variable {Pubkey : Type} [DecidableEq Pubkey]

namespace World

/-- Owner and data of an account: all that programs read of it. -/
def slot (w : World Pubkey) (k : Pubkey) : Pubkey × AccountData Pubkey :=
  ((w.accounts k).owner, (w.accounts k).data)

variable {w w' : World Pubkey} {ids : Addresses Pubkey} {k j : Pubkey}

theorem tokenAt_congr (h : w'.slot k = w.slot k) : w'.tokenAt ids k = w.tokenAt ids k := by
  simp only [slot, Prod.mk.injEq] at h
  simp only [tokenAt, h.1, h.2]

theorem mintAt_congr (h : w'.slot k = w.slot k) : w'.mintAt ids k = w.mintAt ids k := by
  simp only [slot, Prod.mk.injEq] at h
  simp only [mintAt, h.1, h.2]

theorem balanceOf_congr {m : Pubkey} (h : w'.slot k = w.slot k) :
    w'.balanceOf ids m k = w.balanceOf ids m k := by
  simp only [balanceOf, tokenAt_congr h]

theorem configOf_congr (h : w'.slot ids.configKey = w.slot ids.configKey) :
    w'.configOf ids = w.configOf ids := by
  simp only [slot, Prod.mk.injEq] at h
  simp only [configOf, h.1, h.2]

theorem stakeOf_congr {x : Pubkey} (h : w'.slot (ids.stakeKey x) = w.slot (ids.stakeKey x)) :
    w'.stakeOf ids x = w.stakeOf ids x := by
  simp only [slot, Prod.mk.injEq] at h
  simp only [stakeOf, h.1, h.2]

theorem tokenAt_eq_some {t : TokenAccount Pubkey} :
    w.tokenAt ids k = some t ↔ w.slot k = (ids.tokenProgramId, .token t) := by
  unfold tokenAt slot
  split
  · next h => cases hd : (w.accounts k).data <;> simp [h]
  · next h => simp [h]

theorem mintAt_eq_some {x : Mint Pubkey} :
    w.mintAt ids k = some x ↔ w.slot k = (ids.tokenProgramId, .mint x) := by
  unfold mintAt slot
  split
  · next h => cases hd : (w.accounts k).data <;> simp [h]
  · next h => simp [h]

theorem stakeOf_eq_some {x : Pubkey} {sa : StakeAccount Pubkey} :
    w.stakeOf ids x = some sa ↔ w.slot (ids.stakeKey x) = (ids.programId, .stake sa) := by
  unfold stakeOf slot
  split
  · next h => cases hd : (w.accounts (ids.stakeKey x)).data <;> simp [h]
  · next h => simp [h]

theorem configOf_eq_some {c : Config Pubkey} : w.configOf ids = some c ↔
    w.slot ids.configKey = (ids.programId, .config c) ∧ c.initialized = true := by
  unfold configOf slot
  split
  · next h =>
    cases hd : (w.accounts ids.configKey).data with
    | config c' =>
      by_cases hc : c'.initialized = true
      · simp only [hc, if_true, h, Prod.mk.injEq, true_and, AccountData.config.injEq, some.injEq]
        exact ⟨fun he => ⟨he, he ▸ hc⟩, And.left⟩
      · simp only [hc, h, Prod.mk.injEq, true_and, AccountData.config.injEq]
        simp only [if_false, reduceCtorEq, false_iff, not_and]
        exact fun he => he ▸ hc
    | _ => simp [h]
  · next h => simp [h]

theorem balanceOf_of_tokenAt {t : TokenAccount Pubkey} (h : w.tokenAt ids k = some t) :
    w.balanceOf ids t.mint k = t.amount.toNat := by
  simp [balanceOf, h]

theorem supplyOf_of_mintAt {x : Mint Pubkey} (h : w.mintAt ids k = some x) :
    w.supplyOf ids k = x.supply.toNat := by
  simp [supplyOf, h]

/-! ## Slots after each operation -/

theorem slot_setAccount_self (a : Account Pubkey) :
    (w.setAccount k a).slot k = (a.owner, a.data) := by
  simp [slot, setAccount]

theorem slot_setAccount_ne (a : Account Pubkey) (h : j ≠ k) :
    (w.setAccount k a).slot j = w.slot j := by
  simp [slot, setAccount, Function.update_of_ne h]

theorem slot_setData_self (d : AccountData Pubkey) : (w.setData k d).slot k = ((w.slot k).1, d) :=
  slot_setAccount_self _

theorem slot_setData_ne (d : AccountData Pubkey) (h : j ≠ k) : (w.setData k d).slot j = w.slot j :=
  slot_setAccount_ne _ h

theorem setData_eq_self {d : AccountData Pubkey} (h : (w.accounts k).data = d) :
    w.setData k d = w := by
  subst h
  simp [setData, setAccount]

@[simp] theorem slot_setLamports (n : Nat) : (w.setLamports k n).slot j = w.slot j := by
  by_cases h : j = k
  · subst h
    exact slot_setAccount_self _
  · exact slot_setAccount_ne _ h

@[simp] theorem slot_moveLamports {s t : Pubkey} (n : Nat) :
    (w.moveLamports s t n).slot j = w.slot j := by
  simp [moveLamports]

variable {payer owner : Pubkey}

theorem slot_allocate_self (l n : Nat) :
    (w.allocate payer k l n owner).slot k = (owner, .zeroed n) :=
  slot_setAccount_self _

theorem slot_allocate_ne (l n : Nat) (h : j ≠ k) :
    (w.allocate payer k l n owner).slot j = w.slot j :=
  (slot_setAccount_ne _ h).trans (slot_moveLamports _)

theorem slot_install_self (l : Nat) (d : AccountData Pubkey) :
    (w.install payer k l owner d).slot k = (owner, d) :=
  slot_setAccount_self _

theorem slot_install_ne (l : Nat) (d : AccountData Pubkey) (h : j ≠ k) :
    (w.install payer k l owner d).slot j = w.slot j :=
  (slot_setAccount_ne _ h).trans (slot_moveLamports _)

/-! ## Token movements -/

variable {s d t : TokenAccount Pubkey} {x : Mint Pubkey} {m source target : Pubkey} {n : UInt64}

@[simp] theorem clock_moveTokens : (w.moveTokens source target s d n).clock = w.clock := by
  unfold moveTokens
  split <;> rfl

theorem moveTokens_self : w.moveTokens k k s d n = w := by
  simp [moveTokens]

theorem slot_moveTokens_ne (hs : k ≠ source) (ht : k ≠ target) :
    (w.moveTokens source target s d n).slot k = w.slot k := by
  unfold moveTokens
  split
  · rfl
  · rw [setToken, slot_setData_ne _ ht, setToken, slot_setData_ne _ hs]

theorem tokenAt_moveTokens_source (hs : w.tokenAt ids source = some s) (hn : source ≠ target) :
    (w.moveTokens source target s d n).tokenAt ids source =
    some { s with amount := s.amount - n } := by
  rw [tokenAt_eq_some] at hs ⊢
  rw [moveTokens, if_neg hn, setToken, slot_setData_ne _ hn, setToken, slot_setData_self, hs]

theorem tokenAt_moveTokens_target (hd : w.tokenAt ids target = some d) (hn : source ≠ target) :
    (w.moveTokens source target s d n).tokenAt ids target =
    some { d with amount := d.amount + n } := by
  rw [tokenAt_eq_some] at hd ⊢
  rw [moveTokens, if_neg hn, setToken, slot_setData_self, setToken, slot_setData_ne _ hn.symm, hd]

theorem slot_mintTokens_ne (hm : k ≠ m) (ht : k ≠ target) :
    (w.mintTokens m target x d n).slot k = w.slot k := by
  rw [mintTokens, setToken, slot_setData_ne _ ht, slot_setData_ne _ hm]

theorem mint_ne_token (hx : w.mintAt ids m = some x) (hd : w.tokenAt ids target = some d) :
    m ≠ target := by
  rintro rfl
  rw [mintAt_eq_some] at hx
  rw [tokenAt_eq_some, hx] at hd
  simp at hd

theorem mintAt_of_tokenAt (h : w.tokenAt ids k = some t) : w.mintAt ids k = none := by
  cases hx : w.mintAt ids k with
  | none => rfl
  | some x => exact absurd rfl (mint_ne_token hx h)

theorem tokenAt_of_mintAt (h : w.mintAt ids k = some x) : w.tokenAt ids k = none := by
  cases ht : w.tokenAt ids k with
  | none => rfl
  | some t => exact absurd rfl (mint_ne_token h ht)

theorem mintAt_mintTokens (hx : w.mintAt ids m = some x) (hd : w.tokenAt ids target = some d) :
    (w.mintTokens m target x d n).mintAt ids m = some { x with supply := x.supply + n } := by
  have hn := mint_ne_token hx hd
  rw [mintAt_eq_some] at hx ⊢
  rw [mintTokens, setToken, slot_setData_ne _ hn, slot_setData_self, hx]

theorem tokenAt_mintTokens (hx : w.mintAt ids m = some x) (hd : w.tokenAt ids target = some d) :
    (w.mintTokens m target x d n).tokenAt ids target = some { d with amount := d.amount + n } := by
  have hn := mint_ne_token hx hd
  rw [tokenAt_eq_some] at hd ⊢
  rw [mintTokens, setToken, slot_setData_self, slot_setData_ne _ hn.symm, hd]

theorem mintAt_moveTokens (hs : w.tokenAt ids source = some s)
    (hd : w.tokenAt ids target = some d) :
    (w.moveTokens source target s d n).mintAt ids k = w.mintAt ids k := by
  by_cases hn : source = target
  · rw [hn, moveTokens_self]
  by_cases hk : k = source
  · subst hk
    rw [mintAt_of_tokenAt hs, mintAt_of_tokenAt (tokenAt_moveTokens_source hs hn)]
  by_cases hkt : k = target
  · subst hkt
    rw [mintAt_of_tokenAt hd, mintAt_of_tokenAt (tokenAt_moveTokens_target hd hn)]
  exact mintAt_congr (slot_moveTokens_ne hk hkt)

theorem tokenAt_mintTokens_ne (hx : w.mintAt ids m = some x)
    (hd : w.tokenAt ids target = some d) (hk : k ≠ target) :
    (w.mintTokens m target x d n).tokenAt ids k = w.tokenAt ids k := by
  by_cases hkm : k = m
  · subst hkm
    rw [tokenAt_of_mintAt hx, tokenAt_of_mintAt (mintAt_mintTokens hx hd)]
  exact tokenAt_congr (slot_mintTokens_ne hkm hk)

theorem mintAt_mintTokens_ne (hx : w.mintAt ids m = some x)
    (hd : w.tokenAt ids target = some d) (hk : k ≠ m) :
    (w.mintTokens m target x d n).mintAt ids k = w.mintAt ids k := by
  by_cases hkt : k = target
  · subst hkt
    rw [mintAt_of_tokenAt hd, mintAt_of_tokenAt (tokenAt_mintTokens hx hd)]
  exact mintAt_congr (slot_mintTokens_ne hk hkt)

def Blank (ids : Addresses Pubkey) (w : World Pubkey) (k : Pubkey) : Prop :=
  w.tokenAt ids k = none ∧ w.mintAt ids k = none

theorem blank_of_owner (h : (w.slot k).1 ≠ ids.tokenProgramId) : Blank ids w k :=
  ⟨if_neg h, if_neg h⟩

theorem blank_of_data (h : (w.slot k).2 = .empty ∨ (∃ n, (w.slot k).2 = .zeroed n) ∨
    ∃ bytes, (w.slot k).2 = .other bytes) : Blank ids w k := by
  simp only [slot] at h
  constructor
  · unfold tokenAt
    rcases h with h | ⟨_, h⟩ | ⟨_, h⟩ <;> simp [h]
  · unfold mintAt
    rcases h with h | ⟨_, h⟩ | ⟨_, h⟩ <;> simp [h]

end World

/-! ## Token calls as the staking program sees them -/

/-- A call of the token program on existing accounts: it changes amounts and
supplies of token accounts and mints, and nothing else. -/
structure TokenCall (ids : Addresses Pubkey) (w w' : World Pubkey) : Prop where
  clock : w'.clock = w.clock
  others : ∀ k, w.tokenAt ids k = none → w.mintAt ids k = none → w'.slot k = w.slot k
  tokens : ∀ k t, w.tokenAt ids k = some t → ∃ a, w'.tokenAt ids k = some { t with amount := a }
  mints : ∀ k x, w.mintAt ids k = some x → ∃ n, w'.mintAt ids k = some { x with supply := n }
  sound : SplSound ids w → SplSound ids w'

namespace TokenCall

variable {ids : Addresses Pubkey} {w w' w'' : World Pubkey} {k : Pubkey}

theorem refl (ids : Addresses Pubkey) (w : World Pubkey) : TokenCall ids w w :=
  ⟨rfl, fun _ _ _ => rfl, fun _ t h => ⟨t.amount, h⟩, fun _ x h => ⟨x.supply, h⟩, id⟩

theorem tokens_inv (h : TokenCall ids w w') {t : TokenAccount Pubkey}
    (hk : w'.tokenAt ids k = some t) :
    ∃ t0, w.tokenAt ids k = some t0 ∧ t.mint = t0.mint ∧ t.frozen = t0.frozen := by
  cases ht : w.tokenAt ids k with
  | some t0 =>
    obtain ⟨a, ha⟩ := h.tokens k t0 ht
    obtain rfl := some.inj (ha.symm.trans hk)
    exact ⟨t0, rfl, rfl, rfl⟩
  | none =>
    cases hm : w.mintAt ids k with
    | some x =>
      obtain ⟨n, hn⟩ := h.mints k x hm
      rw [tokenAt_of_mintAt hn] at hk
      contradiction
    | none =>
      rw [tokenAt_congr (h.others k ht hm), ht] at hk
      contradiction

end TokenCall

def World.advance (w : World Pubkey) (now : Int64) : World Pubkey := { w with clock := now }

theorem environment_of_slots {ids : Addresses Pubkey} {w w' : World Pubkey}
    (hsl : ∀ k, w'.slot k = w.slot k) (hc : w.clock.toInt ≤ w'.clock.toInt) :
    Environment ids w w' := by
  have hto : ∀ k, w'.tokenAt ids k = w.tokenAt ids k := fun k => tokenAt_congr (hsl k)
  have hm : ∀ k, w'.mintAt ids k = w.mintAt ids k := fun k => mintAt_congr (hsl k)
  refine ⟨hc, fun k _ => congrArg Prod.snd (hsl k), fun k _ => congrArg Prod.fst (hsl k),
    fun k t ht _ => ⟨t, (hto k).trans ht, rfl, rfl, Nat.le_refl _⟩,
    fun k x hx _ => ⟨x, (hm k).trans hx, rfl, id, Nat.le_refl _⟩,
    fun k t ht hf _ _ _ => ⟨t, (hto k).symm.trans ht, rfl, hf⟩, fun hs => ⟨fun m S => ?_, ?_⟩⟩
  · simpa only [balanceOf, supplyOf, hto, hm] using hs.backed m S
  · intro k t ht
    rw [hto] at ht
    rw [hm]
    exact hs.minted k t ht

theorem environment_advance {ids : Addresses Pubkey} {w : World Pubkey} {now : Int64}
    (h : w.clock.toInt ≤ now.toInt) : Environment ids w (w.advance now) :=
  environment_of_slots (fun _ => rfl) h

section

variable {ids : Addresses Pubkey} {w w' : World Pubkey} {s d : TokenAccount Pubkey}
  {x : Mint Pubkey} {m source target : Pubkey} {n : UInt64}

def TokensKept (ids : Addresses Pubkey) (w w' : World Pubkey) : Prop :=
  ∀ k, w'.tokenAt ids k = w.tokenAt ids k ∧ w'.mintAt ids k = w.mintAt ids k

theorem TokensKept.splSound (h : TokensKept ids w w') (hw : SplSound ids w) : SplSound ids w' where
  backed m S := by
    have hb := hw.backed m S
    simpa only [balanceOf, supplyOf, fun k => (h k).1, fun k => (h k).2] using hb
  minted k t hk := by
    rw [(h k).1] at hk
    rw [(h t.mint).2]
    exact hw.minted k t hk

theorem tokensKept_of_blank {k : Pubkey} (hn : ∀ j, j ≠ k → w'.slot j = w.slot j)
    (hb : w.Blank ids k) (hb' : w'.Blank ids k) : TokensKept ids w w' := by
  intro j
  by_cases hj : j = k
  · subst hj
    rw [hb.1, hb'.1, hb.2, hb'.2]
    exact ⟨rfl, rfl⟩
  · exact ⟨tokenAt_congr (hn j hj), mintAt_congr (hn j hj)⟩

theorem tokenCall_moveTokens (hs : w.tokenAt ids source = some s)
    (hd : w.tokenAt ids target = some d) (hm : s.mint = d.mint)
    (hn : n.toNat ≤ s.amount.toNat)
    (hsu : source ≠ target → d.amount.toNat + n.toNat ≤ maxNat) :
    TokenCall ids w (w.moveTokens source target s d n) := by
  by_cases hne : source = target
  · subst hne
    rw [moveTokens_self]
    exact TokenCall.refl ids w
  have hs' := tokenAt_moveTokens_source (d := d) (n := n) hs hne
  have hd' := tokenAt_moveTokens_target (s := s) (n := n) hd hne
  have hsl : ∀ k, k ≠ source → k ≠ target → (w.moveTokens source target s d n).slot k = w.slot k :=
    fun k => slot_moveTokens_ne
  have hmi : ∀ k, (w.moveTokens source target s d n).mintAt ids k = w.mintAt ids k :=
    fun k => mintAt_moveTokens hs hd
  have hto : ∀ k t, w.tokenAt ids k = some t →
      ∃ a, (w.moveTokens source target s d n).tokenAt ids k = some { t with amount := a } := by
    intro k t hk
    by_cases hks : k = source
    · subst hks
      obtain rfl := some.inj (hs.symm.trans hk)
      exact ⟨_, hs'⟩
    by_cases hkt : k = target
    · subst hkt
      obtain rfl := some.inj (hd.symm.trans hk)
      exact ⟨_, hd'⟩
    exact ⟨t.amount, (tokenAt_congr (hsl k hks hkt)).trans hk⟩
  refine ⟨clock_moveTokens, ?_, hto, fun k x hx => ⟨x.supply, (hmi k).trans hx⟩, ?_⟩
  · intro k ht _
    refine hsl k ?_ ?_
    · rintro rfl
      simp [hs] at ht
    · rintro rfl
      simp [hd] at ht
  · intro hw
    refine ⟨fun m => ?_, ?_⟩
    · have hsup : (w.moveTokens source target s d n).supplyOf ids m = w.supplyOf ids m := by
        simp only [supplyOf, hmi]
      rw [hsup]
      refine Covers.exchange (hw.backed m) hne ?_ fun k hks hkt => balanceOf_congr (hsl k hks hkt)
      have h1 := toNat_sub_of_le hn
      have h2 := toNat_add_of_le (hsu hne)
      simp only [balanceOf, hs', hd', hs, hd, hm]
      split <;> omega
    · intro k t hk
      rw [hmi]
      by_cases hks : k = source
      · subst hks
        obtain rfl := some.inj (hs'.symm.trans hk)
        exact hw.minted k s hs
      by_cases hkt : k = target
      · subst hkt
        obtain rfl := some.inj (hd'.symm.trans hk)
        exact hw.minted k d hd
      exact hw.minted k t ((tokenAt_congr (hsl k hks hkt)).symm.trans hk)

theorem tokenCall_mintTokens (hx : w.mintAt ids m = some x)
    (hd : w.tokenAt ids target = some d) (hm : d.mint = m)
    (hsup : x.supply.toNat + n.toNat ≤ maxNat)
    (hsu : d.amount.toNat + n.toNat ≤ maxNat) :
    TokenCall ids w (w.mintTokens m target x d n) := by
  have hx' := mintAt_mintTokens (n := n) hx hd
  have hd' := tokenAt_mintTokens (n := n) hx hd
  have hsl : ∀ k, k ≠ m → k ≠ target → (w.mintTokens m target x d n).slot k = w.slot k :=
    fun k => slot_mintTokens_ne
  have hto : ∀ k, k ≠ target → (w.mintTokens m target x d n).tokenAt ids k = w.tokenAt ids k :=
    fun k => tokenAt_mintTokens_ne hx hd
  have hmi : ∀ k, k ≠ m → (w.mintTokens m target x d n).mintAt ids k = w.mintAt ids k :=
    fun k => mintAt_mintTokens_ne hx hd
  refine ⟨rfl, ?_, ?_, ?_, fun hw => ⟨fun m' => ?_, ?_⟩⟩
  · intro k ht hk
    refine hsl k ?_ ?_
    · rintro rfl
      simp [hx] at hk
    · rintro rfl
      simp [hd] at ht
  · intro k t hk
    by_cases hkt : k = target
    · subst hkt
      obtain rfl := some.inj (hd.symm.trans hk)
      exact ⟨_, hd'⟩
    · exact ⟨t.amount, (hto k hkt).trans hk⟩
  · intro k y hk
    by_cases hkm : k = m
    · subst hkm
      obtain rfl := some.inj (hx.symm.trans hk)
      exact ⟨_, hx'⟩
    · exact ⟨y.supply, (hmi k hkm).trans hk⟩
  · refine Covers.replace (i := target) (hw.backed m') ?_
      fun k hkt => by simp only [balanceOf, hto k hkt]
    have h1 := toNat_add_of_le hsup
    have h2 := toNat_add_of_le hsu
    simp only [balanceOf, hd', hd, hm]
    by_cases hmm : m = m'
    · subst hmm
      simp only [supplyOf, hx', hx, if_true]
      omega
    · have hk : (w.mintTokens m target x d n).supplyOf ids m' = w.supplyOf ids m' := by
        simp only [supplyOf, hmi m' (Ne.symm hmm)]
      simp only [if_neg hmm]
      omega
  · intro k t hk
    have hold : ∃ y, w.mintAt ids t.mint = some y := by
      by_cases hkt : k = target
      · subst hkt
        obtain rfl := some.inj (hd'.symm.trans hk)
        exact hw.minted k d hd
      · exact hw.minted k t ((hto k hkt).symm.trans hk)
    by_cases hkm : t.mint = m
    · rw [hkm]
      exact ⟨_, hx'⟩
    · rw [hmi _ hkm]
      exact hold

end

/-! ## The two calls in terms of balances -/

section

variable {rt : Runtime Pubkey} {w w' : World Pubkey} {p : Privileges Pubkey}
  {source target authority m : Pubkey} {n : UInt64}

structure Transferred (ids : Addresses Pubkey) (w w' : World Pubkey) (source target : Pubkey)
    (n : UInt64) : Prop where
  call : TokenCall ids w w'
  supply : ∀ m, w'.supplyOf ids m = w.supplyOf ids m
  gain : ∀ m k, k ≠ source → w.balanceOf ids m k ≤ w'.balanceOf ids m k
  debit : ∀ s, source ≠ target → w.tokenAt ids source = some s →
    w'.balanceOf ids s.mint source + n.toNat = w.balanceOf ids s.mint source
  credit : ∀ d, source ≠ target → w.tokenAt ids target = some d →
    w'.balanceOf ids d.mint target = w.balanceOf ids d.mint target + n.toNat

theorem transferred (h : rt.tokenTransfer w p source target authority n = .ok w') :
    Transferred rt w w' source target n := by
  obtain ⟨s, d, hs, hd, hm, hn, hsu, rfl⟩ := rt.tokenTransfer_ok h
  refine ⟨tokenCall_moveTokens hs hd hm hn hsu, fun m => ?_, fun m k hk => ?_,
    fun s' hne hs' => ?_, fun d' hne hd' => ?_⟩
  · simp only [supplyOf, mintAt_moveTokens hs hd]
  · by_cases hkt : k = target
    · subst hkt
      have ha := toNat_add_of_le (hsu hk.symm)
      simp only [balanceOf, tokenAt_moveTokens_target hd hk.symm, hd]
      split <;> omega
    · exact (balanceOf_congr (slot_moveTokens_ne hk hkt)).ge
  · obtain rfl := some.inj (hs.symm.trans hs')
    have hsub := toNat_sub_of_le hn
    simp only [balanceOf, tokenAt_moveTokens_source hs hne, hs, if_true]
    omega
  · obtain rfl := some.inj (hd.symm.trans hd')
    have ha := toNat_add_of_le (hsu hne)
    simp only [balanceOf, tokenAt_moveTokens_target hd hne, hd, if_true]
    omega

structure Minted (ids : Addresses Pubkey) (w w' : World Pubkey) (m target : Pubkey)
    (n : UInt64) : Prop where
  call : TokenCall ids w w'
  supply : w'.supplyOf ids m = w.supplyOf ids m + n.toNat
  gain : ∀ m' k, w.balanceOf ids m' k ≤ w'.balanceOf ids m' k
  kept : ∀ m' k, k ≠ target → w'.balanceOf ids m' k = w.balanceOf ids m' k

theorem minted (h : rt.mintTo w p m target authority n = .ok w') : Minted rt w w' m target n := by
  obtain ⟨x, d, hx, hd, hm, hsup, hsu, rfl⟩ := rt.mintTo_ok h
  have hkept : ∀ m' k, k ≠ target → (w.mintTokens m target x d n).balanceOf rt m' k =
      w.balanceOf rt m' k := fun m' k hk => by
    simp only [balanceOf, tokenAt_mintTokens_ne hx hd hk]
  refine ⟨tokenCall_mintTokens hx hd hm hsup hsu, ?_, fun m' k => ?_, hkept⟩
  · simp only [supplyOf, mintAt_mintTokens hx hd, hx]
    exact toNat_add_of_le hsup
  · by_cases hk : k = target
    · subst hk
      have ha := toNat_add_of_le hsu
      simp only [balanceOf, tokenAt_mintTokens hx hd, hd]
      split <;> omega
    · exact (hkept m' k hk).ge

end

end SniperBot.Staking
