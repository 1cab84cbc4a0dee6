import Mathlib.Data.List.TakeWhile

/-!
# Addresses and their texts

An address of either family, and the reader of its text that the standard library has: dotted
decimals without leading zeros, or groups of hexadecimals with at most one gap and possibly a
dotted tail. A reader returns what it has read and the rest of the text, or fails and leaves the
text as it was.
-/

namespace SniperBot.Lib

open Option

inductive IpAddr where
  | v4 (bits : BitVec 32)
  | v6 (bits : BitVec 128)
  deriving DecidableEq

namespace IpAddr

def isIpv4 : IpAddr → Bool
  | v4 _ => true
  | v6 _ => false

def ofDigits (radix : Nat) (digits : List Nat) : Nat := digits.foldl (fun n d => n * radix + d) 0

def digitValue (radix : Nat) (c : Char) : Option Nat :=
  let value :=
    if '0' ≤ c ∧ c ≤ '9' then some (c.toNat - '0'.toNat)
    else if 'a' ≤ c ∧ c ≤ 'f' then some (c.toNat - 'a'.toNat + 10)
    else if 'A' ≤ c ∧ c ≤ 'F' then some (c.toNat - 'A'.toNat + 10)
    else none
  value.filter (· < radix)

abbrev Reader (α : Type) := List Char → Option (α × List Char)

def readGivenChar (target : Char) : Reader Unit
  | c :: rest => if c = target then some ((), rest) else none
  | [] => none

def readNumber (radix maxDigits : Nat) (allowZeroPrefix : Bool) : Reader Nat := fun s =>
  let digits := s.takeWhile fun c => (digitValue radix c).isSome
  if digits = [] ∨ maxDigits < digits.length then none
  else if allowZeroPrefix = false ∧ digits.head? = some '0' ∧ 1 < digits.length then none
  else some (ofDigits radix (digits.filterMap (digitValue radix)),
    s.dropWhile fun c => (digitValue radix c).isSome)

/-- Reads the separator first, except before the first part. -/
def readSeparator {α : Type} (sep : Char) (first : Bool) (inner : Reader α) : Reader α := fun s =>
  if first then inner s else (readGivenChar sep s).bind fun out => inner out.2

def readOctet : Reader Nat := fun s => (readNumber 10 3 false s).filter (·.1 ≤ 255)

def readOctets : Nat → Bool → Reader (List Nat)
  | 0, _, s => some ([], s)
  | n + 1, first, s =>
    (readSeparator '.' first readOctet s).bind fun octet =>
      (readOctets n false octet.2).map fun octets => (octet.1 :: octets.1, octets.2)

def readIpv4 : Reader (List Nat) := readOctets 4 true

/-- The groups that can be read, at most as many as are left, and whether the last two of them
were dotted. -/
def readGroups : Nat → Bool → List Char → (List Nat × Bool) × List Char
  | 0, _, s => (([], false), s)
  | n + 1, first, s =>
    -- a dotted tail takes two groups
    match if 1 ≤ n then readSeparator ':' first readIpv4 s else none with
    | some (octets, rest) =>
      (([ofDigits 256 (octets.take 2), ofDigits 256 (octets.drop 2)], true), rest)
    | none =>
      match readSeparator ':' first (readNumber 16 4 true) s with
      | some (group, rest) =>
        let out := readGroups n false rest
        ((group :: out.1.1, out.1.2), out.2)
      | none => (([], false), s)

def readIpv6 : Reader (List Nat) := fun s =>
  let head := readGroups 8 true s
  if head.1.1.length = 8 then some (head.1.1, head.2)
  else if head.1.2 then none
  else
    (readGivenChar ':' head.2).bind fun colon =>
      (readGivenChar ':' colon.2).map fun gap =>
        let tail := readGroups (8 - (head.1.1.length + 1)) true gap.2
        let zeros := List.replicate (8 - head.1.1.length - tail.1.1.length) 0
        (head.1.1 ++ zeros ++ tail.1.1, tail.2)

def readIpAddr : Reader IpAddr := fun s =>
  match readIpv4 s with
  | some (octets, rest) => some (v4 (BitVec.ofNat 32 (ofDigits 256 octets)), rest)
  | none =>
    (readIpv6 s).map fun groups => (v6 (BitVec.ofNat 128 (ofDigits 65536 groups.1)), groups.2)

def parse (s : List Char) : Option IpAddr :=
  match readIpAddr s with
  | some (ip, []) => some ip
  | _ => none

example : parse "10.0.0.2".toList = some (v4 0x0a000002#32) := by decide +kernel

example : parse "2001:db8::ffff:10.0.0.2".toList =
    some (v6 0x20010db8000000000000ffff0a000002#128) := by decide +kernel

example : parse "010.0.0.2".toList = none := by decide +kernel

def isAddressChar (c : Char) : Bool := (digitValue 16 c).isSome || c = '.' || c = ':'

/-- What was read between two rests of a text is written with such characters. -/
def Reads (s rest : List Char) : Prop :=
  ∃ used, s = used ++ rest ∧ ∀ c ∈ used, isAddressChar c = true

namespace Reads

variable {α : Type} {s t rest : List Char}

theorem refl (s : List Char) : Reads s s := ⟨[], rfl, fun _ h => nomatch h⟩

theorem trans (h : Reads s t) (h' : Reads t rest) : Reads s rest := by
  obtain ⟨used, rfl, hus⟩ := h
  obtain ⟨used', rfl, hu'⟩ := h'
  refine ⟨used ++ used', (List.append_assoc ..).symm, ?_⟩
  intro c hc
  rcases List.mem_append.mp hc with hc | hc
  · exact hus c hc
  · exact hu' c hc

theorem of_readGivenChar {target : Char} (ht : isAddressChar target = true) {u : Unit}
    (h : readGivenChar target s = some (u, rest)) : Reads s rest := by
  unfold readGivenChar at h
  split at h
  · split at h
    · rename_i hc
      cases h
      refine ⟨[target], by rw [hc]; rfl, ?_⟩
      intro c hm
      rw [List.mem_singleton.mp hm]
      exact ht
    · cases h
  · cases h

theorem isAddressChar_of_digit {radix : Nat} (hr : radix ≤ 16) {c : Char}
    (h : (digitValue radix c).isSome = true) : isAddressChar c = true := by
  unfold isAddressChar
  obtain ⟨d, hd⟩ := isSome_iff_exists.mp h
  obtain ⟨hv, hl⟩ := filter_eq_some_iff.mp hd
  have hsi : digitValue 16 c = some d := by
    refine filter_eq_some_iff.mpr ⟨hv, ?_⟩
    simp only [decide_eq_true_eq] at hl ⊢
    omega
  simp [hsi]

theorem of_readNumber {radix maxDigits n : Nat} {allowZeroPrefix : Bool} (hr : radix ≤ 16)
    (h : readNumber radix maxDigits allowZeroPrefix s = some (n, rest)) : Reads s rest := by
  unfold readNumber at h
  dsimp only at h
  split at h
  · cases h
  · split at h
    · cases h
    · cases h
      refine ⟨_, (List.takeWhile_append_dropWhile ..).symm, ?_⟩
      intro c hc
      have hd := List.mem_takeWhile_imp hc
      exact isAddressChar_of_digit hr hd

theorem of_readSeparator {sep : Char} (hse : isAddressChar sep = true) {first : Bool}
    {inner : Reader α} (hi : ∀ s a rest, inner s = some (a, rest) → Reads s rest) {a : α}
    (h : readSeparator sep first inner s = some (a, rest)) : Reads s rest := by
  unfold readSeparator at h
  split at h
  · exact hi s a rest h
  · obtain ⟨⟨u, t⟩, ht, hrest⟩ := bind_eq_some_iff.mp h
    exact (of_readGivenChar hse ht).trans (hi t a rest hrest)

theorem of_readOctet {n : Nat} (h : readOctet s = some (n, rest)) : Reads s rest :=
  of_readNumber (by omega) (filter_eq_some_iff.mp h).1

theorem of_readOctets {n : Nat} {first : Bool} {octets : List Nat}
    (h : readOctets n first s = some (octets, rest)) : Reads s rest := by
  induction n generalizing first s octets with
  | zero =>
    cases h
    exact refl _
  | succ n ih =>
    obtain ⟨⟨octet, t⟩, ho, h⟩ := bind_eq_some_iff.mp h
    obtain ⟨⟨octets', t'⟩, hoc, h⟩ := map_eq_some_iff.mp h
    cases h
    have hf : Reads s t := of_readSeparator (by decide) (fun _ _ _ => of_readOctet) ho
    exact hf.trans (ih hoc)

theorem of_readGroups (n : Nat) (first : Bool) (s : List Char) :
    Reads s (readGroups n first s).2 := by
  induction n generalizing first s with
  | zero => exact refl s
  | succ n ih =>
    unfold readGroups
    split
    · rename_i octets rest hd
      split at hd
      · exact of_readSeparator (by decide) (fun _ _ _ => of_readOctets) hd
      · cases hd
    · split
      · rename_i group rest hg
        have hr : Reads s rest :=
          of_readSeparator (by decide) (fun _ _ _ => of_readNumber (Nat.le_refl 16)) hg
        exact hr.trans (ih false rest)
      · exact refl s

theorem of_readIpv6 {groups : List Nat} (h : readIpv6 s = some (groups, rest)) : Reads s rest := by
  unfold readIpv6 at h
  dsimp only at h
  split at h
  · cases h
    exact of_readGroups 8 true s
  · split at h
    · cases h
    · obtain ⟨⟨_, t⟩, hc, h⟩ := bind_eq_some_iff.mp h
      obtain ⟨⟨_, t'⟩, hg, h⟩ := map_eq_some_iff.mp h
      cases h
      have hh := of_readGroups 8 true s
      have hco := (of_readGivenChar (by decide) hc).trans (of_readGivenChar (by decide) hg)
      exact (hh.trans hco).trans (of_readGroups _ true t')

theorem of_readIpAddr {ip : IpAddr} (h : readIpAddr s = some (ip, rest)) : Reads s rest := by
  unfold readIpAddr at h
  split at h
  · rename_i octets rest' hipv4
    cases h
    exact of_readOctets hipv4
  · obtain ⟨⟨groups, t⟩, hi, h⟩ := map_eq_some_iff.mp h
    cases h
    exact of_readIpv6 hi

end Reads

theorem isAddressChar_of_parse {s : List Char} {ip : IpAddr} (h : parse s = some ip) {c : Char}
    (hc : c ∈ s) : isAddressChar c = true := by
  unfold parse at h
  split at h
  · rename_i ip' hr
    obtain ⟨used, hs, hus⟩ := Reads.of_readIpAddr hr
    rw [hs, List.append_nil] at hc
    exact hus c hc
  · cases h

end IpAddr

end SniperBot.Lib
