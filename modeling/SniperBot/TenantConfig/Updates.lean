import SniperBot.Lib.Versioned
import SniperBot.TenantConfig.Store

/-!
# Updates of tenant configurations

What a put does to a store, the same for both of them, and what follows for any interleaving of
writers. A writer that names no version replaces a document of the first version, which it may
never have seen; apart from that the stores keep versioned documents.
-/

namespace SniperBot.TenantConfig

open Lib.MachineInt (bmod_eq_iff)
open Lib.Runs
open Lib
open Lib.Versioned (Register Write unseen_le_one)

namespace ConfigVersion

variable {version : Int} {v : ConfigVersion}

theorem toNat_ofI64 (h : 1 ≤ version ∧ version ≤ i64Max) :
    ((ofI64 version).raw.toNat : Int) = version := by
  have hm : i64Max = 2 ^ 63 - 1 := rfl
  have hr : (UInt64.ofNat version.toNat).toNat = version.toNat := by
    exact Nat.mod_eq_of_lt (by omega)
  have hpos : (1 : UInt64) ≤ UInt64.ofNat version.toNat := by
    rw [UInt64.le_iff_toNat_le, hr]
    show 1 ≤ version.toNat
    omega
  rw [ofI64, if_pos (by omega), fromRaw, if_pos hpos]
  show ((UInt64.ofNat version.toNat).toNat : Int) = version
  omega

theorem eq_of_toNat_eq {w : ConfigVersion} (h : v.raw.toNat = w.raw.toNat) : v = w :=
  congrArg mk (UInt64.toNat_inj.mp h)

theorem asI64_eq_iff (h : 1 ≤ version ∧ version ≤ i64Max) :
    v.asI64 = version ↔ v = ofI64 version := by
  have hm : i64Max = 2 ^ 63 - 1 := rfl
  have hl := v.raw.toNat_lt
  have ho := toNat_ofI64 h
  have hw : v.asI64 = version ↔ (v.raw.toNat : Int) = version := by
    apply bmod_eq_iff <;> omega
  rw [hw]
  constructor
  · intro he
    apply eq_of_toNat_eq
    omega
  · intro he
    rw [he, ho]

theorem ofI64_one : ofI64 1 = first := by decide

theorem ofI64_succ (h : 1 ≤ version ∧ version + 1 ≤ i64Max) :
    ofI64 (version + 1) = (ofI64 version).next := by
  have h1 := toNat_ofI64 (⟨h.1, by omega⟩ : 1 ≤ version ∧ version ≤ i64Max)
  have h2 := toNat_ofI64 (⟨by omega, h.2⟩ : 1 ≤ version + 1 ∧ version + 1 ≤ i64Max)
  have hm : i64Max = 2 ^ 63 - 1 := rfl
  have hr : (ofI64 (version + 1)).raw = (ofI64 version).raw + 1 := by
    rw [← UInt64.toNat_inj]
    show _ = ((ofI64 version).raw.toNat + 1) % 2 ^ 64
    omega
  rw [next, ← hr]

theorem toNat_next (h : v.raw.toNat ≠ 2 ^ 64 - 1) : v.next.raw.toNat = v.raw.toNat + 1 := by
  have hl := v.raw.toNat_lt
  show (v.raw.toNat + 1) % 2 ^ 64 = _
  omega

end ConfigVersion

open Function

inductive Outcome (get : OrganizationId → Option ConfigRecord) (p : Put) :
    Except ConfigWriteError ConfigRecord → (OrganizationId → Option ConfigRecord) → Prop
  | refused (error : ConfigWriteError) : Outcome get p (.error error) get
  | created (hvalid : validate p.candidate p.bounds = []) (hnone : get p.organizationId = none) :
      Outcome get p (.ok (.initial p)) (update get p.organizationId (some (.initial p)))
  | replaced {doc : ConfigRecord} (hvalid : validate p.candidate p.bounds = [])
      (hdoc : get p.organizationId = some doc)
      (hexpected : p.expected.getD .first = doc.version) :
      Outcome get p (.ok (doc.successor p)) (update get p.organizationId (some (doc.successor p)))

theorem validate_of_ok {config : TenantConfigModel} {bounds : GlobalSafetyBounds} {u : Unit}
    (h : validateOrIssues config bounds = .ok u) : validate config bounds = [] := by
  unfold validateOrIssues at h
  split at h
  · assumption
  · cases h

theorem PgConfigStore.get_setRow (st : PgConfigStore) (org : OrganizationId) (row : PgRow) :
    (st.setRow org row).get = update st.get org
      (some ⟨org, .ofI64 row.version, row.config, row.updatedBy, row.updatedAt⟩) := by
  funext other
  by_cases ho : other = org
  · subst ho
    simp [get, setRow]
  · simp [get, setRow, ho]

open ConfigVersion

open Option

theorem expected_eq_iff (p : Put) (row : PgRow) : row.version = (p.expected.map asI64).getD 1 ↔
    p.expected.getD .first = .ofI64 row.version := by
  have ho : first.asI64 = 1 := (asI64_eq_iff ⟨le_refl 1, by decide⟩).mpr ofI64_one.symm
  rw [← asI64_eq_iff row.check]
  cases p.expected with
  | none =>
    rw [map_none, getD_none, getD_none, ho]
    exact eq_comm
  | some v =>
    rw [map_some, getD_some]
    exact eq_comm

theorem PgConfigStore.put_outcome (st : PgConfigStore) (p : Put) :
    Outcome st.get p (st.put p).1 (st.put p).2.get := by
  unfold put
  split
  · exact .refused _
  · rename_i ho
    have hva := validate_of_ok ho
    unfold upsert
    cases hr : st.rows p.organizationId with
    | none =>
      have hn : st.get p.organizationId = none := by rw [get, hr, map_none]
      by_cases hk : st.organizations p.organizationId = true
      · rw [if_pos hk]
        have h := Outcome.created (p := p) hva hn
        rw [get_setRow]
        exact h
      · rw [if_neg hk]
        exact .refused _
    | some row =>
      dsimp only
      by_cases hv : row.version = (p.expected.map asI64).getD 1
      · rw [if_pos hv]
        by_cases hf : row.version + 1 ≤ i64Max
        · rw [dif_pos hf]
          dsimp only
          rw [get_setRow, ofI64_succ ⟨row.check.1, hf⟩]
          have hd : st.get p.organizationId = some
              ⟨p.organizationId, .ofI64 row.version, row.config, row.updatedBy, row.updatedAt⟩ := by
            rw [get, hr, map_some]
          exact Outcome.replaced (p := p) hva hd ((expected_eq_iff p row).mp hv)
        · rw [dif_neg hf]
          exact .refused _
      · rw [if_neg hv]
        exact .refused _

theorem MemoryConfigStore.put_outcome (st : MemoryConfigStore) (p : Put) :
    Outcome st.get p (st.put p).1 (st.put p).2.get := by
  unfold put
  split
  · exact .refused _
  · rename_i ho
    have hv := validate_of_ok ho
    split
    · rename_i existing hdoc
      dsimp only
      split
      · exact .refused _
      · rename_i hve
        exact .replaced hv hdoc (not_not.mp hve).symm
    · rename_i hnone
      exact .created hv hnone

namespace Store

theorem put_outcome (s : Store) (p : Put) : Outcome s.get p (s.put p).1 (s.put p).2.get := by
  cases s with
  | pg st | memory st => exact st.put_outcome p

theorem put_eq_ok {s : Store} {p : Put} {doc : ConfigRecord}
    (hv : validate p.candidate p.bounds = []) (hd : s.get p.organizationId = some doc)
    (he : p.expected.getD .first = doc.version)
    (hl : doc.version.raw.toNat ≠ 2 ^ 63 - 1) : ∃ record, (s.put p).1 = .ok record := by
  have ho : validateOrIssues p.candidate p.bounds = .ok () := if_pos hv
  cases s with
  | pg st =>
    obtain ⟨row, hr, hd⟩ := map_eq_some_iff.mp hd
    subst hd
    have hf : row.version + 1 ≤ i64Max := by
      have hm : i64Max = 2 ^ 63 - 1 := rfl
      have hn := toNat_ofI64 row.check
      have hc := row.check
      dsimp only at hl
      omega
    have hve := (expected_eq_iff p row).mpr he
    simp only [put, PgConfigStore.put, ho, PgConfigStore.upsert, hr, if_pos hve, dif_pos hf]
    exact ⟨_, rfl⟩
  | memory st =>
    simp only [put, MemoryConfigStore.put, ho]
    split
    · rename_i existing hexi
      obtain rfl : existing = doc := some.inj (hexi.symm.trans hd)
      rw [if_neg (not_not.mpr he.symm)]
      exact ⟨_, rfl⟩
    · exact ⟨_, rfl⟩

end Store

section

variable (get : OrganizationId → Option ConfigRecord) (p : Put)

/-- What the writers of a tenant's configuration rely on, of a put that answers `res` and leaves
the documents `post`. -/
structure Guarded (res : Except ConfigWriteError ConfigRecord) (post : OrganizationId → Option ConfigRecord) :
    Prop where
  named : ∀ doc record, get p.organizationId = some doc → res = .ok record →
    p.expected = some doc.version
  first : ∀ record, get p.organizationId = none → res = .ok record → record.version.raw.toNat = 1
  next : ∀ doc record, get p.organizationId = some doc → res = .ok record →
    record.version.raw.toNat = doc.version.raw.toNat + 1
  stored : ∀ record, res = .ok record → record.config = p.candidate ∧
    post = update get p.organizationId (some record)
  unchanged : ∀ error, res = .error error → post = get

/-- The writer names a version where the first one is stored, and the counter does not wrap. -/
def Named : Prop := validate p.candidate p.bounds = [] → ∀ doc, get p.organizationId = some doc →
    (doc.version = .first → p.expected ≠ none) ∧
    (doc.version.raw.toNat = 2 ^ 64 - 1 → p.expected ≠ some doc.version)

instance : Decidable (Named get p) :=
  inferInstanceAs (Decidable (validate p.candidate p.bounds = [] → ∀ doc ∈ get p.organizationId,
    (doc.version = .first → p.expected ≠ none) ∧
    (doc.version.raw.toNat = 2 ^ 64 - 1 → p.expected ≠ some doc.version)))

end

section

variable {get post : OrganizationId → Option ConfigRecord} {p : Put} {doc : ConfigRecord}
  {res : Except ConfigWriteError ConfigRecord}

theorem Named.expected_eq (h : Named get p) (hv : validate p.candidate p.bounds = [])
    (hd : get p.organizationId = some doc) (hexp : p.expected.getD .first = doc.version) :
    p.expected = some doc.version := by
  cases he : p.expected with
  | none =>
    rw [he] at hexp
    exact absurd he ((h hv doc hd).1 hexp.symm)
  | some v =>
    rw [he] at hexp
    exact congrArg some hexp

theorem Outcome.guarded (ho : Outcome get p res post) (h : Named get p) :
    Guarded get p res post := by
  cases ho with
  | refused error =>
    constructor
    · rintro doc record - hr
      cases hr
    · rintro record - hr
      cases hr
    · rintro doc record - hr
      cases hr
    · rintro record hr
      cases hr
    · intro _ _
      rfl
  | created hv hn =>
    constructor
    · intro doc record hd
      rw [hn] at hd
      cases hd
    · rintro _ - ⟨⟩
      rfl
    · intro doc record hd
      rw [hn] at hd
      cases hd
    · rintro _ ⟨⟩
      exact ⟨rfl, rfl⟩
    · rintro error ⟨⟩
  | @replaced doc hv hd he =>
    have hna := h.expected_eq hv hd he
    constructor
    · rintro doc' _ hd' -
      rw [hd] at hd'
      cases hd'
      exact hna
    · rintro record hn -
      rw [hd] at hn
      cases hn
    · rintro doc' _ hd' ⟨⟩
      rw [hd] at hd'
      cases hd'
      exact toNat_next fun hl => (h hv doc hd).2 hl hna
    · rintro _ ⟨⟩
      exact ⟨rfl, rfl⟩
    · rintro error ⟨⟩

end

namespace Store

theorem named_of_guarded {s : Store} {p : Put}
    (h : Guarded s.get p (s.put p).1 (s.put p).2.get) : Named s.get p := by
  intro hv doc hd
  constructor
  · intro hf hn
    have he : p.expected.getD .first = doc.version := by
      rw [hn, hf]
      rfl
    obtain ⟨record, ho⟩ := put_eq_ok hv hd he (by rw [hf]; decide)
    rw [h.named doc record hd ho] at hn
    cases hn
  · intro hl hso
    have he : p.expected.getD .first = doc.version := by
      rw [hso]
      rfl
    obtain ⟨record, ho⟩ := put_eq_ok hv hd he (by omega)
    have hnext := h.next doc record hd ho
    have hlt := record.version.raw.toNat_lt
    omega

def register (s : Store) : Register OrganizationId TenantConfigModel := fun org =>
  (s.get org).map fun doc => (doc.version.raw.toNat, doc.config)

def write (s : Store) (p : Put) : Write OrganizationId TenantConfigModel where
  key := p.organizationId
  doc := p.candidate
  expected := p.expected.map fun v => v.raw.toNat
  accepted := (s.put p).1.isOk

theorem register_of_update {s t : Store} {org : OrganizationId} {record : ConfigRecord}
    (h : t.get = update s.get org (some record)) :
    t.register = update s.register org (some (record.version.raw.toNat, record.config)) := by
  funext other
  by_cases ho : other = org
  · subst ho
    simp [register, h]
  · simp [register, h, ho]

theorem step_register {s : Store} {p : Put} (h : Guarded s.get p (s.put p).1 (s.put p).2.get) :
    Versioned.Step s.register (s.write p) (s.put p).2.register := by
  cases hr : (s.put p).1 with
  | error error =>
    have hsa : (s.put p).2.register = s.register := by
      unfold register
      rw [h.unchanged error hr]
    rw [hsa]
    apply Versioned.Step.refused
    rw [write, hr]
    rfl
  | ok record =>
    obtain ⟨hc, hpo⟩ := h.stored record hr
    have ha : (s.write p).accepted = true := by
      rw [write, hr]
      rfl
    rw [register_of_update hpo, hc]
    cases hd : s.get p.organizationId with
    | none =>
      rw [h.first record hd hr]
      exact .created ha (by simp [register, write, hd])
    | some doc =>
      rw [h.next doc record hd hr]
      refine .replaced (d := doc.config) ha (by simp [register, write, hd]) ?_
      rw [write, h.named doc record hd hr]
      rfl

end Store

def acceptedUnseen (org : OrganizationId) (e : Entry Store Put) : Bool :=
  (e.pre.put e.label).1.isOk ∧ e.label.organizationId = org ∧ e.label.expected = none

/-- A put is guarded exactly if its writer names a version where the first one is stored; of
the writers who named none, at most one is accepted while all puts are so. -/
theorem no_lost_updates {s t : Store} {tr : List (Entry Store Put)}
    (hrun : Run (fun s p t => t = (s.put p).2) s tr t) :
    (∀ e ∈ tr, Guarded e.pre.get e.label (e.pre.put e.label).1 e.post.get ↔
      Named e.pre.get e.label) ∧
    ((∀ e ∈ tr, Named e.pre.get e.label) → ∀ org, tr.countP (acceptedUnseen org) ≤ 1) := by
  constructor
  · intro e he
    obtain ⟨-, -, hpo⟩ := hrun.mem_reached he
    rw [hpo]
    exact ⟨Store.named_of_guarded, (e.pre.put_outcome e.label).guarded⟩
  · intro hn org
    have ha : Run Versioned.Step s.register
        (tr.map fun e => ⟨e.pre.register, e.pre.write e.label, e.post.register⟩) t.register := by
      refine hrun.simulate_of_entries Store.register (fun e => e.pre.write e.label)
        (P := fun e => Named e.pre.get e.label) ?_ hn
      intro e hn hpo
      rw [hpo]
      exact Store.step_register ((e.pre.put_outcome e.label).guarded hn)
    have ho := unseen_le_one ha org
    rw [List.countP_map] at ho
    refine le_of_eq_of_le ?_ ho
    apply List.countP_congr
    simp [acceptedUnseen, Write.unseen, Store.write]

private def emptyTable : PgConfigStore := ⟨fun _ => true, fun _ => none⟩

private def emptyMap : MemoryConfigStore := ⟨fun _ => none, fun _ _ h => nomatch h⟩

private def putBy (writer : String) (expected : Option ConfigVersion) : Put where
  organizationId := 7
  candidate := .default
  expected := expected
  updatedBy := some writer
  now := 0
  bounds := .platformDefaults

private def puts (s : Store) (p : Put) : Store := (s.put p).2

private def seenThenUnseen : List Put := [putBy "a" none, putBy "b" (some .first), putBy "c" none]

theorem no_lost_updates_in_turn : ∃ (s t : Store) (tr : List (Entry Store Put)),
      Run (fun s p t => t = (s.put p).2) s tr t ∧ (∀ e ∈ tr, Named e.pre.get e.label) ∧
      tr.countP (fun e => (e.pre.put e.label).1.isOk) = 2 ∧
      (∀ e ∈ tr, Guarded e.pre.get e.label (e.pre.put e.label).1 e.post.get) ∧
      tr.countP (acceptedUnseen 7) ≤ 1 := by
  have hr := run_history puts (.pg emptyTable) seenThenUnseen
  have hn : ∀ e ∈ history puts (.pg emptyTable) seenThenUnseen, Named e.pre.get e.label := by
    decide +kernel
  obtain ⟨hg, ho⟩ := no_lost_updates hr
  exact ⟨.pg emptyTable, _, _, hr, hn, by decide +kernel,
    fun e he => (hg e he).mpr (hn e he), ho hn 7⟩

/-- Two writers see no document and both are accepted: the second replaces the document of the
first, on either store. -/
theorem unseen_document_replaced : (∃ (s : PgConfigStore) (t : Store) (tr : List (Entry Store Put)),
      (∀ org, s.get org = none) ∧ Run (fun s p t => t = (s.put p).2) (.pg s) tr t ∧
      tr.countP (acceptedUnseen 7) = 2 ∧
      (t.get 7).map (fun doc => (doc.version.raw.toNat, doc.updatedBy)) = some (2, some "b")) ∧
    ∃ (s : MemoryConfigStore) (t : Store) (tr : List (Entry Store Put)),
      (∀ org, s.get org = none) ∧ Run (fun s p t => t = (s.put p).2) (.memory s) tr t ∧
      tr.countP (acceptedUnseen 7) = 2 ∧
      (t.get 7).map (fun doc => (doc.version.raw.toNat, doc.updatedBy)) = some (2, some "b") := by
  constructor
  · exact ⟨emptyTable, _, _, fun _ => rfl,
      run_history puts (.pg emptyTable) [putBy "a" none, putBy "b" none], by decide +kernel,
      by decide +kernel⟩
  · exact ⟨emptyMap, _, _, fun _ => rfl,
      run_history puts (.memory emptyMap) [putBy "a" none, putBy "b" none], by decide +kernel,
      by decide +kernel⟩

theorem Outcome.get_cases {get post : OrganizationId → Option ConfigRecord} {p : Put}
    {res : Except ConfigWriteError ConfigRecord} {org : OrganizationId} {doc : ConfigRecord}
    (h : Outcome get p res post) (hdoc : post org = some doc) : get org = some doc ∨
    validate p.candidate p.bounds = [] ∧ p.organizationId = org ∧ p.candidate = doc.config := by
  cases h with
  | refused error => exact .inl hdoc
  | created hv _ | replaced hv _ _ =>
    by_cases ho : org = p.organizationId
    · subst ho
      rw [update_self] at hdoc
      cases hdoc
      exact .inr ⟨hv, rfl, rfl⟩
    · rw [update_of_ne ho] at hdoc
      exact .inl hdoc

end SniperBot.TenantConfig
