import SniperBot.TenantConfig.Validator

/-!
# The stores of tenant configurations

One document per tenant, in a database table or in memory. A put compares the version of a
document with the one the writer expects; a missing expectation is taken for the first version.
The database answers every query, and refuses a row of an unknown tenant and a version beyond its
integers.
-/

namespace SniperBot.TenantConfig

abbrev OrganizationId := Nat

structure ConfigVersion where
  raw : UInt64
  deriving DecidableEq

namespace ConfigVersion

def first : ConfigVersion := ⟨1⟩

def fromRaw (raw : UInt64) : Option ConfigVersion := if 1 ≤ raw then some ⟨raw⟩ else none

def next (v : ConfigVersion) : ConfigVersion := ⟨v.raw + 1⟩

def asI64 (v : ConfigVersion) : Int := (v.raw.toNat : Int).bmod (2 ^ 64)

/-- The version of a row, which is the first one if the number is none. -/
def ofI64 (version : Int) : ConfigVersion :=
  (fromRaw (if 0 ≤ version then UInt64.ofNat version.toNat else 1)).getD first

end ConfigVersion

structure ConfigRecord where
  organizationId : OrganizationId
  version : ConfigVersion
  config : TenantConfigModel
  updatedBy : Option String
  updatedAt : Int

structure Put where
  organizationId : OrganizationId
  candidate : TenantConfigModel
  expected : Option ConfigVersion
  updatedBy : Option String
  now : Int
  bounds : GlobalSafetyBounds

namespace ConfigRecord

def initial (p : Put) : ConfigRecord where
  organizationId := p.organizationId
  version := .first
  config := p.candidate
  updatedBy := p.updatedBy
  updatedAt := p.now

def successor (doc : ConfigRecord) (p : Put) : ConfigRecord :=
  { doc with
    version := doc.version.next
    config := p.candidate
    updatedBy := p.updatedBy
    updatedAt := p.now }

end ConfigRecord

inductive DbError where
  | foreignKeyViolation
  | bigintOutOfRange

inductive ConfigWriteError where
  | invalid (issues : List ConfigIssue)
  | staleVersion (expected stored : UInt64)
  | storage (error : DbError)

def i64Max : Int := 2 ^ 63 - 1

/-- A row of `tenant_configs`, with the check on its version. -/
structure PgRow where
  version : Int
  config : TenantConfigModel
  updatedBy : Option String
  updatedAt : Int
  check : 1 ≤ version ∧ version ≤ i64Max

structure PgConfigStore where
  organizations : OrganizationId → Bool
  rows : OrganizationId → Option PgRow

namespace PgConfigStore

variable (st : PgConfigStore)

def get (org : OrganizationId) : Option ConfigRecord := (st.rows org).map fun row =>
    ⟨org, .ofI64 row.version, row.config, row.updatedBy, row.updatedAt⟩

def setRow (org : OrganizationId) (row : PgRow) : PgConfigStore :=
  { st with rows := Function.update st.rows org (some row) }

def upsert (p : Put) : Except DbError (Option PgRow) × PgConfigStore :=
  match st.rows p.organizationId with
  | none =>
    if st.organizations p.organizationId then
      let row := ⟨1, p.candidate, p.updatedBy, p.now, by decide⟩
      (.ok (some row), st.setRow p.organizationId row)
    else (.error .foreignKeyViolation, st)
  | some current =>
    if current.version = (p.expected.map ConfigVersion.asI64).getD 1 then
      if h : current.version + 1 ≤ i64Max then
        let row := ⟨current.version + 1, p.candidate, p.updatedBy, p.now,
          Int.le_add_of_nonneg_left (Int.le_trans Int.one_nonneg current.check.1), h⟩
        (.ok (some row), st.setRow p.organizationId row)
      else (.error .bigintOutOfRange, st)
    else (.ok none, st)

def put (p : Put) : Except ConfigWriteError ConfigRecord × PgConfigStore :=
  match validateOrIssues p.candidate p.bounds with
  | .error issues => (.error (.invalid issues), st)
  | .ok () =>
    match st.upsert p with
    | (.ok (some row), st') =>
      (.ok ⟨p.organizationId, .ofI64 row.version, p.candidate, p.updatedBy, row.updatedAt⟩, st')
    | (.ok none, st') =>
      let error : ConfigWriteError :=
        match p.expected, st'.get p.organizationId with
        | some expected, some current => .staleVersion expected.raw current.version.raw
        | none, some current => .staleVersion 1 current.version.raw
        | expected, none => .staleVersion ((expected.map ConfigVersion.raw).getD 1) 1
      (.error error, st')
    | (.error e, st') => (.error (.storage e), st')

end PgConfigStore

structure MemoryConfigStore where
  docs : OrganizationId → Option ConfigRecord
  owned : ∀ org doc, docs org = some doc → doc.organizationId = org

namespace MemoryConfigStore

variable (st : MemoryConfigStore)

def get (org : OrganizationId) : Option ConfigRecord := st.docs org

def insert (org : OrganizationId) (doc : ConfigRecord) (h : doc.organizationId = org) :
    MemoryConfigStore where
  docs := Function.update st.docs org (some doc)
  owned := by
    intro other doc' h'
    by_cases ho : other = org
    · subst ho
      rw [Function.update_self] at h'
      cases h'
      exact h
    · rw [Function.update_of_ne ho] at h'
      exact st.owned other doc' h'

def put (p : Put) : Except ConfigWriteError ConfigRecord × MemoryConfigStore :=
  match validateOrIssues p.candidate p.bounds with
  | .error issues => (.error (.invalid issues), st)
  | .ok () =>
    match h : st.docs p.organizationId with
    | some existing =>
      let expected := p.expected.getD .first
      if existing.version ≠ expected then
        (.error (.staleVersion expected.raw existing.version.raw), st)
      else
        let record := existing.successor p
        (.ok record, st.insert p.organizationId record (st.owned _ existing h))
    | none =>
      let record := ConfigRecord.initial p
      (.ok record, st.insert p.organizationId record rfl)

end MemoryConfigStore

inductive Store where
  | pg (st : PgConfigStore)
  | memory (st : MemoryConfigStore)

namespace Store

def get : Store → OrganizationId → Option ConfigRecord
  | pg st => st.get
  | memory st => st.get

def put : Store → Put → Except ConfigWriteError ConfigRecord × Store
  | pg st, p => ((st.put p).1, pg (st.put p).2)
  | memory st, p => ((st.put p).1, memory (st.put p).2)

end Store

end SniperBot.TenantConfig
