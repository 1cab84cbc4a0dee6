import Mathlib.Algebra.Group.Nat.Defs
import SniperBot.Ha.Cursor
import SniperBot.Lib.Runs
import SniperBot.Lib.Watermark

/-!
# Cursors across restarts

A worker keeps its cursors in memory and writes them to the store when they advance. After a
restart a cursor is read back when it is first asked for; if that read fails, the worker goes on
with an empty one. Writes succeed, and one call is made after another. Metrics and audit are left
out.
-/

namespace SniperBot.Ha

open Lib.Runs List Option
open Lib (Watermark.Sound Watermark.sound_nil)

abbrev Cursors := AList fun _ : String => FeedCursor

inductive Backend where
  | memory
  | postgres
  deriving DecidableEq

def i64Max : Nat := 2 ^ 63 - 1

/-- A sequence as a row of the backend holds it. -/
def Backend.clamp : Backend → Nat → Nat
  | .memory, position => position
  | .postgres, position => min position i64Max

def Backend.Fits (b : Backend) (position : Nat) : Prop := b = .memory ∨ position ≤ i64Max

theorem Backend.Fits.clamp_eq {b : Backend} {position : Nat} (h : b.Fits position) :
    b.clamp position = position := by
  cases b with
  | memory => rfl
  | postgres => exact min_eq_left (h.resolve_left (by decide))

theorem Backend.Fits.of_le {b : Backend} {p q : Nat} (h : b.Fits q) (hle : p ≤ q) : b.Fits p :=
  h.imp_right hle.trans

structure HaStore where
  backend : Backend
  cursors : Cursors
  gaps : List FeedGap

namespace HaStore

variable (st : HaStore)

def saveCursor (c : FeedCursor) : HaStore :=
  { st with
    cursors := st.cursors.insert c.key { c with position := c.position.map st.backend.clamp } }

def loadCursor (key : String) : Option FeedCursor := st.cursors.lookup key

def gapRow (g : FeedGap) : FeedGap :=
  { g with
    fromPosition := st.backend.clamp g.fromPosition
    toPosition := st.backend.clamp g.toPosition }

def hasRange (row : FeedGap) : Bool :=
  st.gaps.any fun g => g.feed = row.feed ∧ g.scope = row.scope ∧
    g.fromPosition = row.fromPosition ∧ g.toPosition = row.toPosition

/-- Rows of the database are unique in their range; the journal in memory repeats them. -/
def recordGap (g : FeedGap) : HaStore :=
  { st with
    gaps := if st.backend = .postgres ∧ st.hasRange (st.gapRow g) then st.gaps
      else st.gaps ++ [st.gapRow g] }

variable (feed : FeedId) (scope : String) (p : Nat)

def resolveGap (fromPosition : Nat) (status : GapStatus) : HaStore :=
  { st with gaps := st.gaps.map fun g =>
      if g.feed = feed ∧ g.scope = scope ∧ g.fromPosition = st.backend.clamp fromPosition ∧
          (st.backend = .memory ∨ g.status = .detected) then { g with status := status }
      else g }

def position (key : String) : Option Nat := (st.cursors.lookup key).bind FeedCursor.position

def Journaled : Prop :=
  ∃ g ∈ st.gaps, g.feed = feed ∧ g.scope = scope ∧ g.fromPosition ≤ p ∧ p ≤ g.toPosition

instance : Decidable (st.Journaled feed scope p) := inferInstanceAs (Decidable (∃ g ∈ st.gaps, _))

end HaStore

structure Worker where
  workerId : String
  cursors : Cursors
  store : HaStore

namespace Worker

variable (w : Worker)

variable (feed : FeedId) (scope : String) (position : Nat)

def cursor (now : Int) (loadFails : Bool) : FeedCursor × Worker :=
  let key := cursorKey feed scope
  match w.cursors.lookup key with
  | some c => (c, w)
  | none =>
    let loaded := if loadFails then none else w.store.loadCursor key
    let c := loaded.getD (.new feed scope w.workerId now)
    (c, { w with cursors := w.cursors.insert key c })

def persistCursor (c : FeedCursor) : Worker := { w with store := w.store.saveCursor c }

def keep (c : FeedCursor) : Worker := { w with cursors := w.cursors.insert c.key c }

def noteGap : CursorAdvance → Worker
  | .gap g => { w with store := w.store.recordGap g }
  | .advanced | .duplicate => w

def offer (eventAt : Option Int) (now : Int) (loadFails : Bool) : CursorAdvance × Worker :=
  let (c, w) := w.cursor feed scope now loadFails
  let (advance, c) := c.offer position eventAt w.workerId now
  let w := w.noteGap advance
  let w := if advance.shouldProcess then w.persistCursor c else w
  (advance, w.keep c)

def offerToken (scope token : String) (eventAt : Option Int) (now : Int)
    (loadFails : Bool) : CursorAdvance × Worker :=
  let (c, w) := w.cursor feed scope now loadFails
  let (advance, c) := c.offerToken token eventAt w.workerId now
  let w := if advance.shouldProcess then w.persistCursor c else w
  (advance, w.keep c)

def shutdown : Worker :=
  { w with store := (w.cursors.entries.map Sigma.snd).foldl HaStore.saveCursor w.store }

def restart (workerId : String) : Worker := { w with workerId := workerId, cursors := ∅ }

def start (backend : Backend) (workerId : String) : Worker := ⟨workerId, ∅, ⟨backend, ∅, []⟩⟩

end Worker

/-! ## Runs -/

inductive Action where
  | look (feed : FeedId) (scope : String) (now : Int) (loadFails : Bool)
  | offer (feed : FeedId) (scope : String) (position : Nat) (eventAt : Option Int) (now : Int)
      (loadFails : Bool)
  | offerToken (feed : FeedId) (scope token : String) (eventAt : Option Int) (now : Int)
      (loadFails : Bool)
  | resolveGap (feed : FeedId) (scope : String) (fromPosition : Nat) (status : GapStatus)
  | shutdown
  | restart (workerId : String)

def act (w : Worker) : Action → Worker
  | .look feed scope now loadFails => (w.cursor feed scope now loadFails).2
  | .offer feed scope position eventAt now loadFails =>
    (w.offer feed scope position eventAt now loadFails).2
  | .offerToken feed scope token eventAt now loadFails =>
    (w.offerToken feed scope token eventAt now loadFails).2
  | .resolveGap feed scope fromPosition status =>
    { w with store := w.store.resolveGap feed scope fromPosition status }
  | .shutdown => w.shutdown
  | .restart workerId => w.restart workerId

abbrev Event := Entry Worker Action

def told (feed : FeedId) (scope : String) (e : Event) : Option Nat :=
  match e.label with
  | .offer feed' scope' position eventAt now loadFails =>
    if feed' = feed ∧ scope' = scope ∧
        (e.pre.offer feed' scope' position eventAt now loadFails).1.shouldProcess then
      some position
    else none
  | _ => none

def processed (feed : FeedId) (scope : String) (tr : List Event) : List Nat :=
  tr.filterMap (told feed scope)

variable (e : Event)

/-- No load of the step misses a row: it succeeds, is not needed, or has nothing to find. -/
def LoadsRow : Prop :=
  match e.label with
  | .look feed scope _ loadFails | .offer feed scope _ _ _ loadFails
  | .offerToken feed scope _ _ _ loadFails =>
    loadFails = true → e.pre.cursors.lookup (cursorKey feed scope) = none →
      e.pre.store.loadCursor (cursorKey feed scope) = none
  | _ => True

def FitsRow : Prop :=
  match e.label with
  | .offer _ _ position _ _ _ => e.pre.store.backend.Fits position
  | _ => True

instance (b : Backend) (position : Nat) : Decidable (b.Fits position) :=
  inferInstanceAs (Decidable (_ ∨ _))

instance : Decidable (LoadsRow e) := by
  unfold LoadsRow
  split <;> infer_instance

instance : Decidable (FitsRow e) := by
  unfold FitsRow
  split <;> infer_instance

/-! ## What the store says of a feed -/

namespace HaStore

variable {st : HaStore} {feed : FeedId} {scope key : String} {c : FeedCursor} {p : Nat}

theorem Journaled.recordGap (h : st.Journaled feed scope p) (g : FeedGap) :
    (st.recordGap g).Journaled feed scope p := by
  obtain ⟨g', hm, hg'⟩ := h
  refine ⟨g', ?_, hg'⟩
  show g' ∈ if _ then st.gaps else st.gaps ++ [st.gapRow g]
  split_ifs
  · exact hm
  · exact mem_append_left _ hm

theorem journaled_recordGap {g : FeedGap} (hf : st.backend.Fits g.toPosition)
    (hl : g.fromPosition ≤ p) (hh : p ≤ g.toPosition) :
    (st.recordGap g).Journaled g.feed g.scope p := by
  have hr : st.gapRow g = g := by
    unfold gapRow
    rw [(hf.of_le (hl.trans hh)).clamp_eq, hf.clamp_eq]
  unfold HaStore.recordGap
  rw [hr]
  split_ifs with hth
  · obtain ⟨g', hm, hsa⟩ := any_eq_true.mp hth.2
    obtain ⟨hfe, hsc, hfr, hto⟩ := of_decide_eq_true hsa
    exact ⟨g', hm, hfe, hsc, hfr ▸ hl, hto ▸ hh⟩
  · exact ⟨g, mem_append_right _ mem_cons_self, rfl, rfl, hl, hh⟩

theorem Journaled.resolveGap (h : st.Journaled feed scope p) (feed' : FeedId) (scope' : String)
    (fromPosition : Nat) (status : GapStatus) :
    (st.resolveGap feed' scope' fromPosition status).Journaled feed scope p := by
  obtain ⟨g, hm, hg⟩ := h
  refine ⟨_, mem_map_of_mem hm, ?_⟩
  split_ifs <;> exact hg

theorem lookup_saveCursor (c : FeedCursor) (key : String) : (st.saveCursor c).cursors.lookup key =
    if key = c.key then some { c with position := c.position.map st.backend.clamp }
      else st.cursors.lookup key := by
  unfold saveCursor
  split_ifs with h
  · rw [h, AList.lookup_insert]
  · rw [AList.lookup_insert_ne h]

theorem position_saveCursor (c : FeedCursor) (key : String) : (st.saveCursor c).position key =
    if key = c.key then c.position.map st.backend.clamp else st.position key := by
  unfold position
  rw [lookup_saveCursor]
  split_ifs <;> rfl

end HaStore

open Worker

theorem Worker.backend_noteGap (w : Worker) (advance : CursorAdvance) :
    (w.noteGap advance).store.backend = w.store.backend := by
  cases advance <;> rfl

theorem Worker.lookup_keep (w : Worker) (c : FeedCursor) (key : String) :
    (w.keep c).cursors.lookup key = if key = c.key then some c else w.cursors.lookup key := by
  show (w.cursors.insert c.key c).lookup key = _
  split_ifs with h
  · rw [h, AList.lookup_insert]
  · rw [AList.lookup_insert_ne h]

/-! ## One worker and one feed -/

structure OwnKeys (w : Worker) : Prop where
  kept : ∀ {key c}, w.cursors.lookup key = some c → c.key = key
  stored : ∀ {key c}, w.store.cursors.lookup key = some c → c.key = key

namespace OwnKeys

variable {w : Worker} (h : OwnKeys w) (c : FeedCursor)
include h

theorem keep : OwnKeys (w.keep c) where
  kept := by
    intro key c' hl
    rw [w.lookup_keep] at hl
    split_ifs at hl with hk
    · rw [hk, some.inj hl]
    · exact h.kept hl
  stored := h.stored

theorem persistCursor : OwnKeys (w.persistCursor c) where
  kept := h.kept
  stored := by
    intro key c' hl
    have hl : (w.store.saveCursor c).cursors.lookup key = some c' := hl
    rw [HaStore.lookup_saveCursor] at hl
    split_ifs at hl with hk
    · rw [hk, ← some.inj hl]
      rfl
    · exact h.stored hl

theorem cursor_key (feed : FeedId) (scope : String) (now : Int) (loadFails : Bool) :
    (w.cursor feed scope now loadFails).1.key = cursorKey feed scope := by
  unfold cursor
  dsimp only
  split
  · next c hkept => exact h.kept hkept
  · show FeedCursor.key (getD _ _) = _
    split_ifs
    · rfl
    · cases hl : w.store.loadCursor (cursorKey feed scope) with
      | none => rfl
      | some c => exact h.stored hl

end OwnKeys

section

variable {w : Worker} (h : OwnKeys w) (feed : FeedId) (scope : String) (now : Int)
  (loadFails : Bool)

include h

theorem Worker.cursor_snd : (w.cursor feed scope now loadFails).2 = w ∨
    (w.cursor feed scope now loadFails).2 = w.keep (w.cursor feed scope now loadFails).1 := by
  have hk := h.cursor_key feed scope now loadFails
  unfold cursor at hk ⊢
  dsimp only at hk ⊢
  split
  · exact .inl rfl
  · next hn =>
    rw [hn] at hk
    right
    unfold keep
    rw [hk]

theorem Worker.backend_cursor :
    (w.cursor feed scope now loadFails).2.store.backend = w.store.backend := by
  rcases cursor_snd h feed scope now loadFails with he | he
  · rw [he]
  · rw [he]
    rfl

end

/-- Memory and store both stand at the last of the positions taken so far, and what was
passed over is in the journal. -/
structure Tracks (feed : FeedId) (scope : String) (w : Worker) (taken : List Nat) : Prop
    extends OwnKeys w where
  memory : ∀ {c}, w.cursors.lookup (cursorKey feed scope) = some c → c.position = taken.getLast?
  durable : w.store.position (cursorKey feed scope) = taken.getLast?
  fits : ∀ p ∈ taken, w.store.backend.Fits p
  history : Watermark.Sound taken (w.store.Journaled feed scope)

theorem tracks_start (feed : FeedId) (scope : String) (backend : Backend) (workerId : String) :
    Tracks feed scope (.start backend workerId) [] where
  kept h := by cases h
  stored h := by cases h
  memory h := by cases h
  durable := rfl
  fits p h := by cases h
  history := Watermark.sound_nil

namespace Tracks

variable {feed : FeedId} {scope : String} {w : Worker} {taken : List Nat}
  (h : Tracks feed scope w taken)
include h

variable {c : FeedCursor} {loadFails : Bool} {feed' : FeedId} {scope' : String} {now : Int} {eventAt : Option Int}

theorem keep (hc : c.key = cursorKey feed scope → c.position = taken.getLast?) :
    Tracks feed scope (w.keep c) taken where
  toOwnKeys := h.toOwnKeys.keep c
  memory := by
    intro c' hl
    rw [w.lookup_keep] at hl
    split_ifs at hl with hk
    · rw [← some.inj hl]
      exact hc hk.symm
    · exact h.memory hl
  durable := h.durable
  fits := h.fits
  history := h.history

theorem persistCursor (hc : c.key = cursorKey feed scope → c.position = taken.getLast?) :
    Tracks feed scope (w.persistCursor c) taken where
  toOwnKeys := h.toOwnKeys.persistCursor c
  memory := h.memory
  durable := by
    show (w.store.saveCursor c).position _ = _
    rw [HaStore.position_saveCursor]
    split_ifs with hk
    · rw [hc hk.symm]
      cases hl : taken.getLast? with
      | none => rfl
      | some last =>
        rw [map_some, (h.fits last (mem_of_getLast? hl)).clamp_eq]
    · exact h.durable
  fits := h.fits
  history := h.history

theorem recordGap (g : FeedGap) : Tracks feed scope { w with store := w.store.recordGap g } taken :=
  { h with history := h.history.mono fun _ hp => hp.recordGap g }

theorem noteGap (advance : CursorAdvance) : Tracks feed scope (w.noteGap advance) taken := by
  cases advance with
  | advanced | duplicate => exact h
  | gap g => exact h.recordGap g

theorem resolveGap (feed' : FeedId) (scope' : String) (fromPosition : Nat) (status : GapStatus) :
    Tracks feed scope { w with store := w.store.resolveGap feed' scope' fromPosition status }
      taken :=
  { h with history := h.history.mono fun _ hp => hp.resolveGap feed' scope' fromPosition status }

theorem take {p : Nat} (hk : c.key = cursorKey feed scope) (hpos : c.position = some p)
    (hf : w.store.backend.Fits p) (hnext : ∀ last, taken.getLast? = some last →
    last < p ∧ ∀ q, last < q → q < p → w.store.Journaled feed scope q) :
    Tracks feed scope ((w.persistCursor c).keep c) (taken ++ [p]) where
  toOwnKeys := (h.toOwnKeys.persistCursor c).keep c
  memory := by
    intro c' hl
    rw [lookup_keep, if_pos hk.symm] at hl
    rw [← some.inj hl, hpos, getLast?_concat]
  durable := by
    show (w.store.saveCursor c).position _ = _
    rw [HaStore.position_saveCursor, if_pos hk.symm, hpos, map_some, hf.clamp_eq, getLast?_concat]
  fits := by
    intro q hq
    rcases mem_append.mp hq with hq | hq
    · exact h.fits q hq
    · rw [mem_singleton.mp hq]
      exact hf
  history := h.history.push hnext

theorem cursor_position (hl : loadFails = true → w.cursors.lookup (cursorKey feed scope) = none →
    w.store.loadCursor (cursorKey feed scope) = none) :
    (w.cursor feed scope now loadFails).1.position = taken.getLast? := by
  have hd := h.durable
  unfold cursor
  dsimp only
  split
  · next c hkept => exact h.memory hkept
  · next hn =>
    have hr : (if loadFails then none else w.store.loadCursor (cursorKey feed scope)) =
        w.store.loadCursor (cursorKey feed scope) := by
      split_ifs with hf
      · exact (hl hf hn).symm
      · rfl
    rw [hr]
    unfold HaStore.position at hd
    rw [← hd]
    show FeedCursor.position (getD (w.store.cursors.lookup _) _) = _
    cases w.store.cursors.lookup (cursorKey feed scope) <;> rfl

theorem cursor (now : Int)
    (hl : loadFails = true → w.cursors.lookup (cursorKey feed' scope') = none →
    w.store.loadCursor (cursorKey feed' scope') = none) :
    Tracks feed scope (w.cursor feed' scope' now loadFails).2 taken ∧
    ((w.cursor feed' scope' now loadFails).1.key = cursorKey feed scope →
      (w.cursor feed' scope' now loadFails).1.position = taken.getLast?) := by
  have hpos : (w.cursor feed' scope' now loadFails).1.key = cursorKey feed scope →
      (w.cursor feed' scope' now loadFails).1.position = taken.getLast? := by
    intro hk
    rw [h.cursor_key] at hk
    obtain ⟨rfl, rfl⟩ := cursorKey_inj hk
    exact h.cursor_position hl
  refine ⟨?_, hpos⟩
  rcases cursor_snd h.toOwnKeys feed' scope' now loadFails with he | he
  · rw [he]
    exact h
  · rw [he]
    exact h.keep hpos

omit h in
theorem passed_noted {position : Nat} {workerId : String}
    (hc : c.key = cursorKey feed scope) (hpos : c.position = taken.getLast?)
    (hfi : w.store.backend.Fits position) (hbe : c.behind position = false) :
    let advance := (c.missing position workerId now).elim CursorAdvance.advanced .gap
    ∀ last, taken.getLast? = some last → last < position ∧
      ∀ q, last < q → q < position → (w.noteGap advance).store.Journaled feed scope q := by
  intro advance last hl
  obtain ⟨hf, hsc⟩ := cursorKey_inj hc
  refine ⟨c.lt_of_not_behind hbe (hpos.trans hl), fun q hlo hh => ?_⟩
  obtain ⟨g, hm, hg, hg', hfr, hto⟩ := c.missing_covers workerId now (hpos.trans hl) hlo hh
  have ha : advance = .gap g := by
    show Option.elim (c.missing position workerId now) _ _ = _
    rw [hm]
    rfl
  have hr := (FeedCursor.missing_lt hm).2
  rw [ha, ← hf, ← hsc, ← hg, ← hg']
  exact HaStore.journaled_recordGap (hfi.of_le hr.le) hfr hto

theorem offer {position : Nat}
    (hl : loadFails = true → w.cursors.lookup (cursorKey feed' scope') = none →
      w.store.loadCursor (cursorKey feed' scope') = none) (hf : w.store.backend.Fits position) :
    let r := w.offer feed' scope' position eventAt now loadFails
    Tracks feed scope r.2 (taken ++
      (if feed' = feed ∧ scope' = scope ∧ r.1.shouldProcess then some position
        else none).toList) := by
  obtain ⟨hw, hpos⟩ := h.cursor now hl
  have hk := h.cursor_key feed' scope' now loadFails
  rw [← backend_cursor h.toOwnKeys feed' scope' now loadFails] at hf
  unfold Worker.offer
  generalize w.cursor feed' scope' now loadFails = r at hw hpos hk hf ⊢
  obtain ⟨c, w⟩ := r
  dsimp only at hw hpos hk hf ⊢
  have ho := c.offered position eventAt w.workerId now
  generalize c.offer position eventAt w.workerId now = out at ho ⊢
  cases ho with
  | @dropped c' hk' hp' =>
    have hst := hw.keep (c := c') fun hc => hp'.trans (hpos (hk' ▸ hc))
    simpa [CursorAdvance.shouldProcess, Worker.noteGap] using hst
  | @moved advance c' hk' hp' hbe hg =>
    have hpr : advance.shouldProcess = true := by
      rw [hg]
      cases c.missing position w.workerId now <;> rfl
    have hn := hw.noteGap advance
    simp only [hpr, if_true, and_true]
    by_cases hsa : feed' = feed ∧ scope' = scope
    · obtain ⟨rfl, rfl⟩ := hsa
      rw [if_pos ⟨rfl, rfl⟩]
      refine hn.take (hk'.trans hk) hp' (by rwa [w.backend_noteGap]) ?_
      rw [hg]
      exact passed_noted hk (hpos hk) hf hbe
    · have hot : c'.key ≠ cursorKey feed scope := by
        intro he
        rw [hk', hk] at he
        exact hsa (cursorKey_inj he)
      rw [if_neg hsa, toList_none, append_nil]
      exact (hn.persistCursor fun he => absurd he hot).keep fun he => absurd he hot

theorem offerToken {token : String}
    (hl : loadFails = true → w.cursors.lookup (cursorKey feed' scope') = none →
    w.store.loadCursor (cursorKey feed' scope') = none) :
    Tracks feed scope (w.offerToken feed' scope' token eventAt now loadFails).2 taken := by
  obtain ⟨hw, hpos⟩ := h.cursor now hl
  unfold Worker.offerToken
  generalize w.cursor feed' scope' now loadFails = r at hw hpos ⊢
  obtain ⟨c, w⟩ := r
  dsimp only at hw ⊢
  have hk := c.offerToken_key eventAt w.workerId now token
  have hp' := c.offerToken_position eventAt w.workerId now token
  generalize c.offerToken token eventAt w.workerId now = out at hk hp' ⊢
  obtain ⟨advance, c'⟩ := out
  have hc : c'.key = cursorKey feed scope → c'.position = taken.getLast? :=
    fun he => hp'.trans (hpos (hk ▸ he))
  split_ifs
  · exact (hw.persistCursor hc).keep hc
  · exact hw.keep hc

theorem shutdown : Tracks feed scope w.shutdown taken := by
  have ha : ∀ (l : List FeedCursor) (w : Worker), Tracks feed scope w taken →
      (∀ c ∈ l, c.key = cursorKey feed scope → c.position = taken.getLast?) →
      Tracks feed scope { w with store := l.foldl HaStore.saveCursor w.store } taken := by
    intro l
    induction l with
    | nil => exact fun w hw _ => hw
    | cons c l ih =>
      intro w hw hl
      exact ih (w.persistCursor c) (hw.persistCursor (hl c mem_cons_self))
        fun c' hc' => hl c' (mem_cons_of_mem _ hc')
  refine ha _ w h fun c hc hk => ?_
  obtain ⟨⟨key, c⟩, hm, rfl⟩ := mem_map.mp hc
  have hlo : w.cursors.lookup key = some c := AList.mem_lookup_iff.mpr hm
  obtain rfl : key = cursorKey feed scope := (h.kept hlo).symm.trans hk
  exact h.memory hlo

theorem restart (workerId : String) : Tracks feed scope (w.restart workerId) taken :=
  { h with
    kept := by intro key c hl; cases hl
    memory := by intro c hl; cases hl }

theorem act {a : Action} (hl : LoadsRow ⟨w, a, Ha.act w a⟩) (hf : FitsRow ⟨w, a, Ha.act w a⟩) :
    Tracks feed scope (Ha.act w a) (taken ++ (told feed scope ⟨w, a, Ha.act w a⟩).toList) := by
  cases a with
  | offer feed' scope' position eventAt now loadFails => exact h.offer hl hf
  | look feed' scope' now loadFails =>
    show Tracks feed scope _ (taken ++ [])
    rw [append_nil]
    exact (h.cursor now hl).1
  | offerToken feed' scope' token eventAt now loadFails =>
    show Tracks feed scope _ (taken ++ [])
    rw [append_nil]
    exact h.offerToken hl
  | resolveGap feed' scope' fromPosition status =>
    show Tracks feed scope _ (taken ++ [])
    rw [append_nil]
    exact h.resolveGap feed' scope' fromPosition status
  | shutdown =>
    show Tracks feed scope _ (taken ++ [])
    rw [append_nil]
    exact h.shutdown
  | restart workerId =>
    show Tracks feed scope _ (taken ++ [])
    rw [append_nil]
    exact h.restart workerId

end Tracks

/-! ## Whole runs -/

section

variable {feed : FeedId} {scope : String} {w w' : Worker} {tr : List Event}

theorem processed_snoc (feed : FeedId) (scope : String) (tr : List Event) (e : Event) :
    processed feed scope (tr ++ [e]) = processed feed scope tr ++ (told feed scope e).toList := by
  unfold processed
  cases h : told feed scope e <;> simp [h]

theorem tracks_run (hr : Run (fun w a w' => w' = act w a) w tr w')
    (hg : ∀ e ∈ tr, LoadsRow e ∧ FitsRow e) (h0 : Tracks feed scope w []) :
    Tracks feed scope w' (processed feed scope tr) := by
  induction hr with
  | nil => exact h0
  | @snoc tr t u a _ hst ih =>
    subst hst
    have hl := hg _ (mem_append_right _ mem_cons_self)
    rw [processed_snoc]
    exact (ih fun e he => hg e (mem_append_left _ he)).act hl.1 hl.2

end

/-- As long as no load misses a row and no position is beyond what the backend can hold, the
durable position of a feed never decreases, no position is told to be processed twice, and
what was passed over since the first one is in the journal. -/
theorem cursor_survives_restarts (feed : FeedId) (scope : String) (backend : Backend)
    (workerId : String) {tr : List Event} {w : Worker}
    (hr : Run (fun w a w' => w' = act w a) (.start backend workerId) tr w)
    (hgood : ∀ e ∈ tr, LoadsRow e ∧ FitsRow e) :
    (∀ e ∈ tr, ∀ p, e.pre.store.position (cursorKey feed scope) = some p →
      ∃ q, e.post.store.position (cursorKey feed scope) = some q ∧ p ≤ q) ∧
    (processed feed scope tr).Nodup ∧
    ∀ first current p, (processed feed scope tr).head? = some first →
      w.store.position (cursorKey feed scope) = some current → first ≤ p → p ≤ current →
        p ∈ processed feed scope tr ∨ w.store.Journaled feed scope p := by
  have htr := tracks_run hr hgood (tracks_start feed scope backend workerId)
  refine ⟨?_, htr.history.nodup, ?_⟩
  · intro e he p hp
    obtain ⟨before, later, rfl⟩ := append_of_mem he
    obtain ⟨hbe, hst, -⟩ := hr.around
    have hpr := tracks_run hbe (fun e he => hgood e (mem_append_left _ he))
      (tracks_start feed scope backend workerId)
    have hpo := tracks_run (hbe.snoc hst) (fun e he => hgood e (by
        rcases mem_append.mp he with he | he
        · exact mem_append_left _ he
        · rw [mem_singleton.mp he]
          exact mem_append_right _ mem_cons_self))
      (tracks_start feed scope backend workerId)
    have hl : (processed feed scope before).getLast? = some p := hpr.durable.symm.trans hp
    rw [processed_snoc] at hpo
    have hm : p ∈ processed feed scope before ++ (told feed scope e).toList :=
      mem_append_left _ (mem_of_getLast? hl)
    obtain ⟨q, hq⟩ := isSome_iff_exists.mp (getLast?_isSome.mpr (ne_nil_of_mem hm))
    exact ⟨q, hpo.durable.trans hq, hpo.history.le_last hq hm⟩
  · intro first current p hf hc hg hle
    exact htr.history.complete hf (htr.durable.symm.trans hc) hg hle

private def user : FeedId := .polymarketUser

private def resumed : List Action :=
  [.offer user "" 1 none 0 false, .restart "w2", .offer user "" 4 none 0 false,
    .offer user "" 1 none 0 false]

theorem cursor_survives_restarts_resumed :
    let tr := history act (.start .postgres "w1") resumed
    let w := resumed.foldl act (.start .postgres "w1")
    processed user "" tr = [1, 4] ∧ (processed user "" tr).Nodup ∧
      (2 ∈ processed user "" tr ∨ w.store.Journaled user "" 2) := by
  intro tr w
  have hf : processed user "" tr = [1, 4] ∧
      w.store.position (cursorKey user "") = some 4 := by decide +kernel
  have hg : ∀ e ∈ tr, LoadsRow e ∧ FitsRow e := by decide +kernel
  obtain ⟨-, hn, hga⟩ := cursor_survives_restarts user "" .postgres "w1"
    (run_history act _ resumed) hg
  exact ⟨hf.1, hn, hga 1 4 2 (by rw [hf.1]; rfl) hf.2 (by decide) (by decide)⟩

private def forgotten : List Action :=
  [.offer user "" 1 none 0 false, .restart "w2", .offer user "" 5 none 0 true, .restart "w3",
    .offer user "" 3 none 0 true, .offer user "" 5 none 0 false]

/-- Two failed loads: the durable position falls from 5 to 3, position 5 is processed twice,
and position 2 was passed over without a gap. -/
theorem failed_load_forgets :
    let tr := history act (.start .memory "w1") forgotten
    let w := forgotten.foldl act (.start .memory "w1")
    Run (fun w a w' => w' = act w a) (.start .memory "w1") tr w ∧
      (tr.map fun e => e.post.store.position (cursorKey user "")) =
        [some 1, some 1, some 5, some 5, some 3, some 5] ∧
      processed user "" tr = [1, 5, 3, 5] ∧
      2 ∉ processed user "" tr ∧ ¬ w.store.Journaled user "" 2 := by
  exact ⟨run_history act _ forgotten, by decide +kernel⟩

end SniperBot.Ha
