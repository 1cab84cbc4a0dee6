import SniperBot.Execution.Ledger
import SniperBot.Lib.IpAddr

/-!
# The address of a client behind trusted proxies

A header counts only if the socket peer is a trusted proxy. Then the client is the last address of
the `X-Forwarded-For` chain that is not trusted, or, if an entry is no address, the only
`X-Real-IP`. The tenant's allowlist is checked against the result.
-/

namespace SniperBot.Saas

open Execution (isWhitespace)
open Lib (IpAddr)

def trimChars (s : List Char) : List Char :=
  ((s.dropWhile isWhitespace).reverse.dropWhile isWhitespace).reverse

def parseU8 (s : List Char) : Option Nat :=
  let digits := if s.head? = some '+' then s.tail else s
  if digits ≠ [] ∧ digits.all (fun c => (IpAddr.digitValue 10 c).isSome) then
    (some (IpAddr.ofDigits 10 (digits.filterMap (IpAddr.digitValue 10)))).filter (· ≤ 255)
  else none

/-- A network: its address, and how many bits of it count. -/
abbrev Cidr := IpAddr × Nat

def parseCidr (value : List Char) : Option Cidr :=
  let text := trimChars value
  if '/' ∈ text then
    let address := text.takeWhile (· ≠ '/')
    let rest := (text.dropWhile (· ≠ '/')).tail
    (IpAddr.parse address).bind fun ip =>
      (parseU8 rest).bind fun bits =>
        if (if ip.isIpv4 then 32 else 128) < bits then none else some (ip, bits)
  else none

def cidrMask (width bits : Nat) : BitVec width :=
  if bits = 0 then 0 else BitVec.allOnes width <<< (width - bits)

def ipMatchesCidr (ip : IpAddr) (cidr : Cidr) : Bool :=
  match ip, cidr with
  | .v4 ip, (.v4 network, bits) =>
    if 32 < bits then false else ip &&& cidrMask 32 bits = network &&& cidrMask 32 bits
  | .v6 ip, (.v6 network, bits) =>
    if 128 < bits then false else ip &&& cidrMask 128 bits = network &&& cidrMask 128 bits
  | _, _ => false

structure TrustedProxies where
  networks : List Cidr

namespace TrustedProxies

/-- The networks of the configuration, or the first entry that is none. -/
def fromConfig (cidrs : List String) : Except String TrustedProxies :=
  (cidrs.mapM fun value => (parseCidr value.toList).elim (Except.error value) Except.ok).map mk

def contains (trusted : TrustedProxies) (ip : IpAddr) : Bool :=
  trusted.networks.any (ipMatchesCidr ip)

end TrustedProxies

abbrev HeaderValue := List UInt8

/-- The values of the two headers that are read, in the order of the request. -/
structure HeaderMap where
  xForwardedFor : List HeaderValue := []
  xRealIp : List HeaderValue := []

def isVisibleAscii (b : UInt8) : Bool := (32 ≤ b && b < 127) || b == 9

def charOf (b : UInt8) : Char := Char.ofNat b.toNat

/-- The value as a text, unless it has other bytes than visible ones. -/
def toStr (value : HeaderValue) : Option (List Char) :=
  if value.all isVisibleAscii then some (value.map charOf) else none

def forwardedChain (values : List HeaderValue) : Option (List IpAddr) :=
  (values.mapM toStr).bind fun texts =>
    (texts.flatMap (List.splitOn ',')).mapM fun entry => IpAddr.parse (trimChars entry)

def realIp (values : List HeaderValue) : Option IpAddr :=
  match values with
  | [value] => (toStr value).bind fun text => IpAddr.parse (trimChars text)
  | _ => none

def resolveClientIp (peer : Option IpAddr) (headers : HeaderMap) (trusted : TrustedProxies) :
    Option IpAddr :=
  peer.bind fun peer =>
    if trusted.contains peer = false then some peer
    else
      match (forwardedChain headers.xForwardedFor).filter (· ≠ []) with
      | some chain => chain.reverse.find? fun ip => !trusted.contains ip
      | none => realIp headers.xRealIp

inductive DecisionKind where
  | denyPermission
  | denyUnavailable
  deriving DecidableEq

structure Decision where
  kind : DecisionKind
  reason : String
  deriving DecidableEq

inductive PolicyRow where
  | noDatabase
  | loadFailed
  | undecodable
  | absent
  | allowlist (entries : List String)

def enforce (policy : PolicyRow) (trusted : TrustedProxies) (headers : HeaderMap)
    (peer : Option IpAddr) : Except Decision Unit :=
  match policy with
  | .noDatabase | .absent => .ok ()
  | .loadFailed =>
    .error ⟨.denyUnavailable, "the organization's IP allowlist could not be loaded"⟩
  | .undecodable =>
    .error ⟨.denyUnavailable, "the organization's IP allowlist could not be decoded"⟩
  | .allowlist entries =>
    if entries = [] then .ok ()
    else
      match resolveClientIp peer headers trusted with
      | none =>
        .error ⟨.denyPermission, "the organization restricts access by IP allowlist " ++
          "and this request carries no verifiable client address"⟩
      | some clientIp =>
        if (entries.filterMap fun e => parseCidr e.toList).any (ipMatchesCidr clientIp) then .ok ()
        else .error ⟨.denyPermission, "client address is not in the organization's IP allowlist"⟩

end SniperBot.Saas
