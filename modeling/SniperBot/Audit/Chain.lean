import Mathlib.Data.List.Basic
import Mathlib.Logic.Encodable.Basic
import Mathlib.Logic.Equiv.List

/-!
# The audit chain

Every row of the audit log carries the hash of the row before it, and its own hash is taken
over its fields joined by bars. The walk that verifies the chain reads the oldest rows up to a
limit. A time stands for its RFC 3339 text, which has no bar, and a detail for its compact
JSON text.
-/

namespace SniperBot.Audit

open List

/-- The hash of a text in hex digits, which no two texts share. -/
structure Sha256Hex where
  digest : String → String
  injective : Function.Injective digest
  hex : ∀ s, ∀ c ∈ (digest s).toList, c ∈ "0123456789abcdef".toList

structure Timestamp where
  text : List Char
  plain : '|' ∉ text

structure AuditEntry where
  id : Int
  ts : Timestamp
  actor : String
  action : String
  target : Option String
  outcome : String
  detail : String
  prevHash : String
  hash : String

namespace AuditEntry

structure Content where
  ts : List Char
  actor : String
  action : String
  target : Option String
  outcome : String
  detail : String

variable (e : AuditEntry)

def content : Content := ⟨e.ts.text, e.actor, e.action, e.target, e.outcome, e.detail⟩

def message : List Char :=
  e.prevHash.toList ++ '|' :: (e.ts.text ++ '|' :: (e.actor.toList ++ '|' :: (e.action.toList ++
    '|' :: ((e.target.getD "").toList ++ '|' :: (e.outcome.toList ++ '|' :: e.detail.toList)))))

def chainHash (d : Sha256Hex) : String := d.digest (String.ofList e.message)

/-- The texts before the last have no bar, and a target is not an empty text. -/
structure Plain : Prop where
  actor : '|' ∉ e.actor.toList
  action : '|' ∉ e.action.toList
  target : '|' ∉ (e.target.getD "").toList
  outcome : '|' ∉ e.outcome.toList
  target_ne : e.target ≠ some ""

end AuditEntry

structure AuditTable where
  rows : List AuditEntry
  ordered : rows.Pairwise fun e f => e.id < f.id

def genesis : String := "genesis"

namespace AuditTable

variable (t : AuditTable) (d : Sha256Hex)

def head : Option String := t.rows.getLast?.map (·.hash)

def nextRow (id : Int) (c : AuditEntry.Content) (hts : '|' ∉ c.ts) : AuditEntry :=
  let row : AuditEntry :=
    ⟨id, ⟨c.ts, hts⟩, c.actor, c.action, c.target, c.outcome, c.detail, t.head.getD genesis, ""⟩
  { row with hash := row.chainHash d }

/-- The walk from a hash; the id of the first row that does not match. -/
def walk (prev : String) : List AuditEntry → Option Int
  | [] => none
  | e :: rows =>
    if e.prevHash ≠ prev then some e.id
    else if e.chainHash d ≠ e.hash then some e.id
    else walk e.hash rows

def verifyLimit : ℕ := 100000

def verifyChain : Option Int := walk d genesis (t.rows.take verifyLimit)

end AuditTable

/-! ## Chains from their end -/

/-- Rows from the last to the first that hang together down to the genesis. -/
inductive Chain (d : Sha256Hex) : List AuditEntry → String → Prop
  | start : Chain d [] genesis
  | link {rows : List AuditEntry} {e : AuditEntry} (before : Chain d rows e.prevHash)
      (hash_eq : e.hash = e.chainHash d) : Chain d (e :: rows) e.hash

section

variable {d : Sha256Hex} {rows done : List AuditEntry} {prev h : String} {e f : AuditEntry}

open AuditTable

theorem chain_of_walk (hw : walk d prev rows = none) (hd : Chain d done prev) :
    Chain d (rows.reverse ++ done) ((rows.getLast?.map (·.hash)).getD prev) := by
  induction rows generalizing prev done with
  | nil => exact hd
  | cons e rows ih =>
    unfold walk at hw
    split at hw
    · cases hw
    · next hpr =>
      split at hw
      · cases hw
      · next hh =>
        rw [← not_not.mp hpr] at hd
        have hc := ih hw (.link hd (not_not.mp hh).symm)
        rw [reverse_cons, append_assoc, getLast?_cons]
        cases hl : rows.getLast? with
        | none | some last =>
          rw [hl] at hc
          exact hc

theorem digest_plain (s : String) : '|' ∉ (d.digest s).toList := fun h =>
  absurd (d.hex s _ h) (by decide)

theorem digest_ne_genesis (s : String) : d.digest s ≠ genesis := by
  intro h
  have hg : 'g' ∈ (d.digest s).toList := by
    rw [h]
    decide
  exact absurd (d.hex s _ hg) (by decide)

theorem Chain.plain (h : Chain d rows prev) : '|' ∉ prev.toList := by
  cases h with
  | start => decide
  | link _ hash_eq =>
    rw [hash_eq]
    exact digest_plain _

theorem inj_of_bar {as bs cs ds : List Char} (ha : '|' ∉ as) (hb : '|' ∉ bs)
    (h : as ++ '|' :: cs = bs ++ '|' :: ds) : as = bs ∧ cs = ds := by
  induction as generalizing bs with
  | nil =>
    cases bs with
    | nil => exact ⟨rfl, (cons.inj h).2⟩
    | cons b bs => exact absurd (cons.inj h).1 (fun hba => hb (hba ▸ mem_cons_self))
  | cons a as ih =>
    cases bs with
    | nil => exact absurd (cons.inj h).1.symm (fun hba => ha (hba ▸ mem_cons_self))
    | cons b bs =>
      obtain ⟨rfl, hta⟩ := cons.inj h
      obtain ⟨rfl, hrest⟩ := ih (fun hm => ha (mem_cons_of_mem a hm))
        (fun hm => hb (mem_cons_of_mem a hm)) hta
      exact ⟨rfl, hrest⟩

theorem target_inj {a b : Option String} (ha : a ≠ some "") (hb : b ≠ some "")
    (h : a.getD "" = b.getD "") : a = b := by
  cases a <;> cases b <;> simp_all

theorem content_of_message (he : e.Plain) (hf : f.Plain) (hep : '|' ∉ e.prevHash.toList)
    (hfp : '|' ∉ f.prevHash.toList) (h : e.message = f.message) :
    e.prevHash = f.prevHash ∧ e.content = f.content := by
  obtain ⟨hpr, h⟩ := inj_of_bar hep hfp h
  obtain ⟨hts, h⟩ := inj_of_bar e.ts.plain f.ts.plain h
  obtain ⟨hac, h⟩ := inj_of_bar he.actor hf.actor h
  obtain ⟨ha, h⟩ := inj_of_bar he.action hf.action h
  obtain ⟨hta, h⟩ := inj_of_bar he.target hf.target h
  obtain ⟨ho, hd⟩ := inj_of_bar he.outcome hf.outcome h
  have hta := target_inj he.target_ne hf.target_ne (String.toList_inj.mp hta)
  unfold AuditEntry.content
  rw [hts, String.toList_inj.mp hac, String.toList_inj.mp ha, hta,
    String.toList_inj.mp ho, String.toList_inj.mp hd]
  exact ⟨String.toList_inj.mp hpr, rfl⟩

theorem contents_eq {others : List AuditEntry} (hr : Chain d rows h) (ho : Chain d others h)
    (hpl : ∀ e ∈ rows, e.Plain) (hp' : ∀ e ∈ others, e.Plain) :
    rows.map AuditEntry.content = others.map AuditEntry.content := by
  induction hr generalizing others with
  | start =>
    generalize hg : genesis = g at ho
    cases ho with
    | start => rfl
    | link _ hash_eq => exact absurd (hash_eq.symm.trans hg.symm) (digest_ne_genesis _)
  | @link rows e before hash_eq ih =>
    generalize hh : e.hash = g at ho
    cases ho with
    | start => exact absurd (hash_eq.symm.trans hh) (digest_ne_genesis _)
    | @link others f before' hash_eq' =>
      have hm : e.message = f.message := by
        have hd := hash_eq.symm.trans (hh.trans hash_eq')
        exact String.ofList_inj.mp (d.injective hd)
      obtain ⟨hpr, hc⟩ := content_of_message (hpl e mem_cons_self)
        (hp' f mem_cons_self) before.plain before'.plain hm
      have hrest := ih (hpr ▸ before') (fun x hx => hpl x (mem_cons_of_mem e hx))
        fun x hx => hp' x (mem_cons_of_mem f hx)
      rw [map_cons, map_cons, hc, hrest]

theorem chain_of_verified {t : AuditTable} (hl : t.rows.length ≤ verifyLimit)
    (hv : t.verifyChain d = none) :
    Chain d t.rows.reverse (t.head.getD genesis) := by
  rw [verifyChain, take_of_length_le hl] at hv
  have hc := chain_of_walk hv .start
  rwa [append_nil] at hc

end

/-- A digest that writes the number of a text in strokes. -/
private def strokes : Sha256Hex where
  digest s := String.ofList (replicate (Encodable.encode (s.toList.map Char.toNat)) '0')
  injective s t h := by
    have hco := congrArg length (String.ofList_inj.mp h)
    rw [length_replicate, length_replicate] at hco
    have hcod := Encodable.encode_injective hco
    have hch : Function.Injective Char.toNat := fun a b ha => Char.toNat_inj.mp ha
    exact String.toList_inj.mp (hch.list_map hcod)
  hex s c hc := by
    rw [String.toList_ofList] at hc
    rw [eq_of_mem_replicate hc]
    decide

private theorem plain_time : '|' ∉ "2026-01-01T00:00:00+00:00".toList := by decide

variable (id : Int) (actor action : String) (target : Option String)

private def single : AuditTable where
  rows := [AuditTable.nextRow ⟨[], .nil⟩ strokes id
    ⟨"2026-01-01T00:00:00+00:00".toList, actor, action, target, "ok", "null"⟩ plain_time]
  ordered := pairwise_singleton _ _

private theorem verified_single : (single id actor action target).verifyChain strokes = none := by
  show AuditTable.walk strokes genesis [_] = none
  simp [AuditTable.walk, AuditTable.nextRow, AuditTable.head, AuditEntry.chainHash,
    AuditEntry.message]

private theorem head_single :
    (single id actor action target).head = some (strokes.digest (String.ofList
    ("genesis".toList ++ '|' :: ("2026-01-01T00:00:00+00:00".toList ++ '|' :: (actor.toList ++
      '|' :: (action.toList ++ '|' :: ((target.getD "").toList ++ '|' :: ("ok".toList ++
        '|' :: "null".toList)))))))) := rfl

end SniperBot.Audit
