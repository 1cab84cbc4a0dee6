import SniperBot.Lib.Runs
import SniperBot.Saas.TrustedProxy

/-!
# Requests that come through trusted proxies

Each proxy adds the address of its own peer to `X-Forwarded-For` and passes the other headers on.
It may write the address as a line of its own or behind a comma, and it may join lines. The
client writes what it likes into the headers before the first proxy sees them.
-/

namespace SniperBot.Saas

open Execution (isWhitespace)
open Lib (IpAddr)
open Lib.Runs

def comma : UInt8 := 44

def entryIp (value : HeaderValue) : Option IpAddr :=
  (toStr value).bind fun text => IpAddr.parse (trimChars text)

/-- The values `values` with the entry `entry` added, and perhaps lines joined. -/
inductive Appends (values : List HeaderValue) (entry : HeaderValue) : List HeaderValue → Prop
  | line : Appends values entry (values ++ [entry])
  | join {before after : List HeaderValue} {v w pad : HeaderValue}
      (hpad : ∀ b ∈ pad, b = 32 ∨ b = 9) (h : Appends values entry (before ++ v :: w :: after)) :
      Appends values entry (before ++ (v ++ comma :: (pad ++ w)) :: after)

/-- A request on its way: the address its next receiver sees, and its headers. -/
structure Request where
  peer : IpAddr
  headers : HeaderMap

inductive Forwards (trusted : TrustedProxies) (r : Request) : IpAddr → Request → Prop
  | mk {proxy : IpAddr} {entry : HeaderValue} {values : List HeaderValue}
      (htrusted : trusted.contains proxy = true) (hentry : entryIp entry = some r.peer)
      (happends : Appends r.headers.xForwardedFor entry values) :
      Forwards trusted r proxy ⟨proxy, { r.headers with xForwardedFor := values }⟩

def valueIps (value : HeaderValue) : Option (List IpAddr) := (toStr value).bind fun text =>
    (text.splitOn ',').mapM fun entry => IpAddr.parse (trimChars entry)

open Option

theorem mapM_append_eq {α β : Type} (f : α → Option β) (l l' : List α) :
    (l ++ l').mapM f = (l.mapM f).bind fun a => (l'.mapM f).map (a ++ ·) := by
  simp [map_eq_bind]

open List

theorem forwardedChain_cons (v : HeaderValue) (vs : List HeaderValue) : forwardedChain (v :: vs) =
    (valueIps v).bind fun ips => (forwardedChain vs).map (ips ++ ·) := by
  unfold forwardedChain valueIps
  cases hv : toStr v with
  | none => simp [hv]
  | some text =>
    cases hvs : vs.mapM toStr with
    | none => simp [hvs]
    | some texts =>
      simp [hv, hvs, mapM_append_eq, -mapM_append]

theorem forwardedChain_append (vs ws : List HeaderValue) : forwardedChain (vs ++ ws) =
    (forwardedChain vs).bind fun ips => (forwardedChain ws).map (ips ++ ·) := by
  induction vs with
  | nil =>
    show forwardedChain ws = (some []).bind fun ips => (forwardedChain ws).map (ips ++ ·)
    simp
  | cons v vs ih =>
    rw [cons_append, forwardedChain_cons, forwardedChain_cons, ih]
    cases valueIps v with
    | none => rfl
    | some ips =>
      cases forwardedChain vs with
      | none => rfl
      | some rest =>
        cases forwardedChain ws with
        | none => rfl
        | some more => simp

theorem trimChars_cons {c : Char} (hc : isWhitespace c = true) (s : List Char) :
    trimChars (c :: s) = trimChars s := by
  unfold trimChars
  rw [dropWhile_cons_of_pos hc]

theorem mapM_splitOn_pad {pad : List Char} (hpa : ∀ c ∈ pad, isWhitespace c = true)
    (s : List Char) :
    ((pad ++ s).splitOn ',').mapM (fun entry => IpAddr.parse (trimChars entry)) =
    (s.splitOn ',').mapM fun entry => IpAddr.parse (trimChars entry) := by
  induction pad with
  | nil => rfl
  | cons c pad ih =>
    have hc := hpa c mem_cons_self
    have hco : (c == ',') = false := by
      rw [beq_eq_false_iff_ne]
      rintro rfl
      exact absurd hc (by decide)
    rw [← ih fun c hc => hpa c (mem_cons_of_mem _ hc)]
    rw [cons_append, splitOn_eq_splitOnP, splitOnP_cons_eq_if_modifyHead, hco]
    rw [← splitOn_eq_splitOnP]
    cases (pad ++ s).splitOn ',' with
    | nil => rfl
    | cons entry entries => simp [trimChars_cons hc]

theorem toStr_append (v w : HeaderValue) :
    toStr (v ++ w) = (toStr v).bind fun a => (toStr w).map (a ++ ·) := by
  unfold toStr
  rw [all_append]
  cases v.all isVisibleAscii <;> cases w.all isVisibleAscii <;> simp

theorem toStr_comma_pad {pad : HeaderValue} (hpa : ∀ b ∈ pad, b = 32 ∨ b = 9) :
    ∃ blank, toStr (comma :: pad) = some (',' :: blank) ∧ ∀ c ∈ blank, isWhitespace c = true := by
  have hv : (comma :: pad).all isVisibleAscii = true := by
    rw [all_cons, all_eq_true.mpr]
    · decide
    · intro b hb
      rcases hpa b hb with rfl | rfl <;> decide
  refine ⟨pad.map charOf, if_pos hv, ?_⟩
  intro c hc
  obtain ⟨b, hb, rfl⟩ := mem_map.mp hc
  rcases hpa b hb with rfl | rfl <;> decide

theorem valueIps_join {pad : HeaderValue} (hpa : ∀ b ∈ pad, b = 32 ∨ b = 9) (v w : HeaderValue) :
    valueIps (v ++ comma :: (pad ++ w)) =
    (valueIps v).bind fun ips => (valueIps w).map (ips ++ ·) := by
  obtain ⟨blank, hbl, hsp⟩ := toStr_comma_pad hpa
  unfold valueIps
  rw [← cons_append, toStr_append, toStr_append, hbl]
  cases toStr v with
  | none => rfl
  | some a =>
    cases toStr w with
    | none => simp
    | some b =>
      have hspl : (a ++ ',' :: (blank ++ b)).splitOn ',' =
          a.splitOn ',' ++ (blank ++ b).splitOn ',' :=
        splitOnP_append_cons a (blank ++ b) (beq_self_eq_true ',')
      simp only [bind_some, map_some, cons_append, hspl, mapM_append_eq, mapM_splitOn_pad hsp]

theorem mem_trimChars {c : Char} {s : List Char} (hc : c ∈ s) (hsp : isWhitespace c = false) :
    c ∈ trimChars s := by
  have hd : ∀ t : List Char, c ∈ t → c ∈ t.dropWhile isWhitespace := by
    intro t ht
    rw [← takeWhile_append_dropWhile (p := isWhitespace) (l := t)] at ht
    rcases mem_append.mp ht with hta | hd
    · have hw := mem_takeWhile_imp hta
      rw [hsp] at hw
      cases hw
    · exact hd
  unfold trimChars
  rw [mem_reverse]
  exact hd _ (mem_reverse.mpr (hd s hc))

variable {entry : HeaderValue} {ip : IpAddr}

theorem valueIps_of_entryIp (h : entryIp entry = some ip) : valueIps entry = some [ip] := by
  obtain ⟨text, hte, hpa⟩ := bind_eq_some_iff.mp h
  have hco : ∀ c ∈ text, (c == ',') = false := by
    intro c hc
    rw [beq_eq_false_iff_ne]
    rintro rfl
    have hch := IpAddr.isAddressChar_of_parse hpa (mem_trimChars hc (by decide))
    exact absurd hch (by decide)
  have hsp : text.splitOn ',' = [text] := splitOnP_eq_singleton hco
  unfold valueIps
  rw [hte, bind_some, hsp]
  simp [hpa]

theorem forwardedChain_single (h : entryIp entry = some ip) :
    forwardedChain [entry] = some [ip] := by
  rw [forwardedChain_cons, valueIps_of_entryIp h]
  rfl

theorem Appends.forwardedChain_eq {values values' : List HeaderValue}
    (h : Appends values entry values') (he : entryIp entry = some ip) :
    forwardedChain values' = (forwardedChain values).map (· ++ [ip]) := by
  induction h with
  | line =>
    rw [forwardedChain_append, forwardedChain_single he, map_eq_bind]
    rfl
  | @join before after v w pad hpa _ ih =>
    rw [← ih, forwardedChain_append, forwardedChain_append]
    have hj : forwardedChain ((v ++ comma :: (pad ++ w)) :: after) =
        forwardedChain (v :: w :: after) := by
      rw [forwardedChain_cons, valueIps_join hpa, forwardedChain_cons, forwardedChain_cons]
      cases valueIps v with
      | none => rfl
      | some a =>
        cases valueIps w with
        | none => rfl
        | some b =>
          cases forwardedChain after with
          | none => rfl
          | some rest => simp
    rw [hj]

/-- What the next receiver gets of a request that a client at `client` has sent with the
headers `sent`, through the proxies `proxies`. -/
structure Arrived (trusted : TrustedProxies) (client : IpAddr) (sent : HeaderMap)
    (proxies : List IpAddr) (r : Request) : Prop where
  trusted : ∀ ip ∈ proxies, trusted.contains ip = true
  /-- The chain goes on with all addresses on the way but the last, which is the peer. -/
  chain : ∃ seen, seen ++ [r.peer] = client :: proxies ∧ forwardedChain r.headers.xForwardedFor =
      (forwardedChain sent.xForwardedFor).map (· ++ seen)
  passed : r.headers.xRealIp = sent.xRealIp

section

variable {trusted : TrustedProxies} {client : IpAddr} {sent : HeaderMap} {proxies : List IpAddr}
  {r : Request} {proxy : IpAddr} {tr : List (Entry Request IpAddr)}

theorem Arrived.forward {r' : Request} (h : Arrived trusted client sent proxies r)
    (hf : Forwards trusted r proxy r') :
    Arrived trusted client sent (proxies ++ [proxy]) r' := by
  obtain ⟨htr, he, ha⟩ := hf
  obtain ⟨seen, hse, hc⟩ := h.chain
  constructor
  · intro ip hi
    rcases mem_append.mp hi with hi | hi
    · exact h.trusted ip hi
    · rw [mem_singleton.mp hi]
      exact htr
  · refine ⟨seen ++ [r.peer], ?_, ?_⟩
    · rw [hse]
      rfl
    · rw [ha.forwardedChain_eq he, hc, Option.map_map]
      congr 1
      funext ips
      exact append_assoc ..
  · exact h.passed

theorem arrived_of_run (hr : Run (Forwards trusted) ⟨client, sent⟩ tr r) :
    Arrived trusted client sent (tr.map (·.label)) r := by
  induction hr with
  | nil =>
    exact ⟨fun _ h => (nomatch h), ⟨[], rfl, by simp⟩, rfl⟩
  | snoc _ hst ih =>
    rw [map_append]
    exact ih.forward hst

theorem find_untrusted {ips : List IpAddr} (hc : trusted.contains client = false)
    (hpr : ∀ ip ∈ proxies, trusted.contains ip = true) :
    (ips ++ client :: proxies).reverse.find? (fun ip => !trusted.contains ip) = some client := by
  have hn : proxies.reverse.find? (fun ip => !trusted.contains ip) = none := by
    rw [find?_eq_none]
    intro ip hi
    simp [hpr ip (mem_reverse.mp hi)]
  rw [reverse_append, reverse_cons, append_assoc, find?_append, hn]
  simp [hc]

theorem Arrived.last (h : Arrived trusted client sent (proxies ++ [proxy]) r) :
    trusted.contains r.peer = true ∧ (∀ ip ∈ proxies, trusted.contains ip = true) ∧
    forwardedChain r.headers.xForwardedFor =
      (forwardedChain sent.xForwardedFor).map (· ++ client :: proxies) := by
  obtain ⟨seen, hse, hc⟩ := h.chain
  obtain ⟨rfl, hpe⟩ := append_inj' (hse.trans (cons_append ..).symm) rfl
  refine ⟨?_, fun ip hi => h.trusted ip (mem_append_left _ hi), hc⟩
  rw [singleton_inj.mp hpe]
  exact h.trusted proxy (mem_append_right _ (mem_singleton_self _))

theorem arrived_last_of_run (hr : Run (Forwards trusted) ⟨client, sent⟩ tr r) (hpr : tr ≠ []) :
    ∃ proxies proxy, Arrived trusted client sent (proxies ++ [proxy]) r := by
  have h := arrived_of_run hr
  rcases tr.eq_nil_or_concat with rfl | ⟨tr, e, rfl⟩
  · exact absurd rfl hpr
  · rw [concat_eq_append, map_append] at h
    exact ⟨_, _, h⟩

theorem Arrived.resolve_of_valid (h : Arrived trusted client sent (proxies ++ [proxy]) r)
    (hcl : trusted.contains client = false) (hv : forwardedChain sent.xForwardedFor ≠ none)
    :
    resolveClientIp (some r.peer) r.headers trusted = some client := by
  obtain ⟨hpe, hpr, hc⟩ := h.last
  obtain ⟨ips, hi⟩ := ne_none_iff_exists'.mp hv
  have hf : ((some ips).map (· ++ client :: proxies)).filter (· ≠ []) =
      some (ips ++ client :: proxies) := by simp
  unfold resolveClientIp
  rw [bind_some, if_neg (by rw [hpe]; decide), hc, hi, hf]
  exact find_untrusted hcl hpr

theorem Arrived.resolve_of_malformed (h : Arrived trusted client sent (proxies ++ [proxy]) r)
    (hm : forwardedChain sent.xForwardedFor = none) :
    resolveClientIp (some r.peer) r.headers trusted = realIp sent.xRealIp := by
  obtain ⟨hpe, -, hc⟩ := h.last
  unfold resolveClientIp
  rw [bind_some, if_neg (by rw [hpe]; decide), hc, hm, h.passed]
  rfl

/-- A request that comes through trusted proxies is resolved to the address the first of them
received it from, unless the client itself sent an entry that is no address; then to what the
only `X-Real-IP` says, which is the client's to write. -/
theorem client_ip_behind_proxies {tr : List (Entry Request IpAddr)} {r : Request}
    (hclient : trusted.contains client = false)
    (hrun : Run (Forwards trusted) ⟨client, sent⟩ tr r) (hproxies : tr ≠ []) :
    (forwardedChain sent.xForwardedFor ≠ none →
      resolveClientIp (some r.peer) r.headers trusted = some client) ∧
    (forwardedChain sent.xForwardedFor = none →
      resolveClientIp (some r.peer) r.headers trusted = realIp sent.xRealIp) := by
  obtain ⟨proxies, proxy, h⟩ := arrived_last_of_run hrun hproxies
  exact ⟨h.resolve_of_valid hclient, h.resolve_of_malformed⟩

/-- While its entries are addresses, the allowlist decides as if the client had connected
without a proxy. -/
theorem enforce_behind_proxies (hc : trusted.contains client = false)
    (hr : Run (Forwards trusted) ⟨client, sent⟩ tr r) (hpr : tr ≠ [])
    (hv : forwardedChain sent.xForwardedFor ≠ none) (policy : PolicyRow) (headers : HeaderMap) :
    enforce policy trusted r.headers (some r.peer) =
    enforce policy trusted headers (some client) := by
  obtain ⟨proxies, proxy, h⟩ := arrived_last_of_run hr hpr
  have hd : resolveClientIp (some client) headers trusted = some client := if_pos hc
  unfold enforce
  rw [h.resolve_of_valid hc hv, hd]

end

private def text (s : String) : HeaderValue := s.toList.map fun c => UInt8.ofNat c.toNat

private def internal : TrustedProxies := ⟨[(.v4 0x0a000000#32, 8)]⟩

private def firstProxy : IpAddr := .v4 0x0a000002#32

private def lastProxy : IpAddr := .v4 0x0a000001#32

private def outsider : IpAddr := .v4 0xcb007109#32

private theorem entryIp_outsider : entryIp (text "203.0.113.9") = some outsider := by
  decide +kernel

theorem client_ip_behind_two_proxies :
    ∃ (trusted : TrustedProxies) (client : IpAddr) (sent : HeaderMap)
      (tr : List (Entry Request IpAddr)) (r : Request),
      trusted.contains client = false ∧ Run (Forwards trusted) ⟨client, sent⟩ tr r ∧
      tr.length = 2 ∧ sent.xForwardedFor ≠ [] ∧
      resolveClientIp (some r.peer) r.headers trusted = some client := by
  have hpa : ∀ b ∈ ([32] : HeaderValue), b = 32 ∨ b = 9 := fun b hb => .inl (mem_singleton.mp hb)
  have hli : Appends [text "198.51.100.7"] (text "203.0.113.9")
      ([] ++ text "198.51.100.7" :: text "203.0.113.9" :: []) := .line
  have hf : Forwards internal ⟨outsider, ⟨[text "198.51.100.7"], []⟩⟩ firstProxy
      ⟨firstProxy, ⟨[text "198.51.100.7" ++ comma :: ([32] ++ text "203.0.113.9")], []⟩⟩ :=
    ⟨by decide +kernel, entryIp_outsider, .join hpa hli⟩
  have he : entryIp (text "10.0.0.2") = some firstProxy := by decide +kernel
  have hl : Forwards internal
      ⟨firstProxy, ⟨[text "198.51.100.7" ++ comma :: ([32] ++ text "203.0.113.9")], []⟩⟩
      lastProxy _ := ⟨by decide +kernel, he, .line⟩
  have hr := (Run.single hf).snoc hl
  have hc : internal.contains outsider = false := by decide +kernel
  exact ⟨internal, outsider, _, _, _, hc, hr, rfl, by simp,
    (client_ip_behind_proxies hc hr (by simp)).1 (by decide +kernel)⟩

/-- A client that sends no list of addresses chooses its own address, and with it passes the
allowlist that would refuse it. -/
theorem client_ip_chosen : ∃ (trusted : TrustedProxies) (client : IpAddr) (sent : HeaderMap)
      (tr : List (Entry Request IpAddr)) (r : Request) (policy : PolicyRow) (chosen : IpAddr),
      trusted.contains client = false ∧ Run (Forwards trusted) ⟨client, sent⟩ tr r ∧ tr ≠ [] ∧
      resolveClientIp (some r.peer) r.headers trusted = some chosen ∧ chosen ≠ client ∧
      enforce policy trusted r.headers (some r.peer) = .ok () ∧
      enforce policy trusted sent (some client) ≠ .ok () := by
  have hf : Forwards internal ⟨outsider, ⟨[text "garbage"], [text "192.0.2.1"]⟩⟩
      lastProxy _ := ⟨by decide +kernel, entryIp_outsider, .line⟩
  exact ⟨internal, outsider, _, _, _, .allowlist ["192.0.2.0/24"], .v4 0xc0000201#32,
    by decide +kernel, Run.single hf, by simp, by decide +kernel, by decide +kernel,
    by decide +kernel, by decide +kernel⟩

theorem enforce_behind_first_proxy : ∃ r : Request, r.peer = firstProxy ∧ ∀ policy,
    enforce policy internal r.headers (some r.peer) =
    enforce policy internal ⟨[], []⟩ (some outsider) := by
  have hf : Forwards internal ⟨outsider, ⟨[text "198.51.100.7"], []⟩⟩ firstProxy _ :=
    ⟨by decide +kernel, entryIp_outsider, .line⟩
  exact ⟨_, rfl, fun policy => enforce_behind_proxies (by decide +kernel) (Run.single hf) (by simp)
    (by decide +kernel) policy _⟩

end SniperBot.Saas
