import Autopeer.PeerData

/-! The checks of the handlers on the fields of a request. The parser of IPv6 text and the URL
parser are parameters. -/
namespace Autopeer.RequestParsing
open Ipv6 PeerData

/-- The Unicode property White_Space. -/
def isWhitespace (c : Char) : Bool :=
  let n := c.toNat
  (9 ≤ n && n ≤ 13) || n = 0x20 || n = 0x85 || n = 0xa0 || n = 0x1680 ||
    (0x2000 ≤ n && n ≤ 0x200a) || n = 0x2028 || n = 0x2029 || n = 0x202f || n = 0x205f || n = 0x3000

def trim (text : String) : String :=
  String.ofList (((text.toList.dropWhile isWhitespace).reverse.dropWhile isWhitespace).reverse)

def isAsciiLowercase (c : Char) : Bool := 'a' ≤ c && c ≤ 'z'

def isAsciiDigit (c : Char) : Bool := '0' ≤ c && c ≤ '9'

def validFirst : List Char → Bool
  | [] => false
  | c :: _ => isAsciiLowercase c || isAsciiDigit c

def validRest (characters : List Char) : Bool :=
  characters.tail.all fun c => isAsciiLowercase c || isAsciiDigit c || c = '-'

def parsePeerName (peerName : String) : Except PeerError String :=
  let peerName := trim peerName
  if !validFirst peerName.toList || !validRest peerName.toList || peerName.utf8ByteSize > 32 then
    .error (.validation "peer_name must match [a-z0-9][a-z0-9-]\x7b0,31\x7d")
  else .ok peerName

section LinkLocal
variable (parseIpv6 : String → Option Ipv6Addr)

def parseLinkLocalAddress (name : String) (value : Option String) : Except PeerError Ipv6Addr :=
  match value with
  | none => .error (.validation (name ++ " is required when manual_lla=true"))
  | some value =>
    match parseIpv6 (trim value) with
    | none => .error (.validation (name ++ " must be a valid IPv6 address"))
    | some address =>
      if !address.isUnicastLinkLocal then
        .error (.validation (name ++ " must be an IPv6 link-local address"))
      else .ok address

def parseLinkLocal (manualLla : Bool) (localLlIp remoteLlIp : Option String) :
    Except PeerError (Option (Ipv6Addr × Ipv6Addr)) :=
  if !manualLla then
    if localLlIp.isSome || remoteLlIp.isSome then
      .error (.validation "local_ll_ip and remote_ll_ip require manual_lla=true")
    else .ok none
  else do
    let localAddress ← parseLinkLocalAddress parseIpv6 "local_ll_ip" localLlIp
    let remoteAddress ← parseLinkLocalAddress parseIpv6 "remote_ll_ip" remoteLlIp
    if localAddress = remoteAddress then
      .error (.validation "local_ll_ip and remote_ll_ip must differ")
    else .ok (some (localAddress, remoteAddress))

end LinkLocal

section Endpoint

inductive Host
  | domain (host : String)
  | ipv4 (a b c d : UInt8)
  | ipv6 (host : Ipv6Addr)
  deriving DecidableEq, Repr

structure Url where
  username : String
  password : Option String
  path : String
  query : Option String
  fragment : Option String
  port : Option UInt16
  host : Option Host
  deriving DecidableEq, Repr

def toAsciiLowercase (text : String) : String := String.ofList (text.toList.map Char.toLower)

def ipv4Display (a b c d : UInt8) : String := String.intercalate "." ([a, b, c, d].map toString)

def endpointText (port : UInt16) : Host → String
  | .domain host => toAsciiLowercase host ++ ":" ++ toString port
  | .ipv4 a b c d => ipv4Display a b c d ++ ":" ++ toString port
  | .ipv6 host => "[" ++ host.display ++ "]:" ++ toString port

variable (parseUrl : String → Option Url)

def parseEndpointValue (endpoint : String) : Except PeerError String :=
  match parseUrl ("udp://" ++ trim endpoint) with
  | none => .error (.validation "The endpoint must use the HOST:PORT format")
  | some url =>
    if url.username ≠ "" || url.password.isSome || url.path ≠ "" || url.query.isSome ||
        url.fragment.isSome then
      .error (.validation "The endpoint must use the HOST:PORT format")
    else
      match url.port with
      | none => .error (.validation "The endpoint must include a port")
      | some port =>
        match url.host with
        | none => .error (.validation "The endpoint must include an IP address or hostname")
        | some host => .ok (endpointText port host)

def parseEndpoint : Option String → Except PeerError (Option String)
  | none => .ok none
  | some endpoint => (parseEndpointValue parseUrl endpoint).map some

/-- The endpoint of an update: absent, null, or a value. -/
def parseEndpointUpdate : Option (Option String) → Except PeerError (Option (Option String))
  | none => .ok none
  | some endpoint => (parseEndpoint parseUrl endpoint).map some

end Endpoint

/-- The characters of a peer name. -/
def nameChar (c : Char) : Bool := isAsciiLowercase c || isAsciiDigit c || c = '-'

theorem parsePeerName_ok {text name : String} (h : parsePeerName text = .ok name) :
    name = trim text ∧ name.toList ≠ [] ∧ (∀ c ∈ name.toList, nameChar c) ∧
      name.utf8ByteSize ≤ 32 := by
  simp only [parsePeerName] at h
  split at h
  · cases h
  · rename_i hc
    cases h
    simp only [Bool.or_eq_true, Bool.not_eq_true', decide_eq_true_eq, not_or, Bool.not_eq_false,
      gt_iff_lt, not_lt] at hc
    obtain ⟨⟨hfirst, hrest⟩, hlen⟩ := hc
    refine ⟨rfl, ?_, ?_, hlen⟩
    · intro he
      simp [he, validFirst] at hfirst
    · intro c hm
      cases hl : (trim text).toList with
      | nil => simp [hl] at hm
      | cons d ds =>
        rw [hl] at hm hfirst hrest
        rcases List.mem_cons.mp hm with rfl | hm
        · simp only [validFirst] at hfirst
          simp [nameChar, hfirst]
        · exact List.all_eq_true.mp hrest c hm

lemma parseLinkLocalAddress_ok {parseIpv6 : String → Option Ipv6Addr} {name : String}
    {value : Option String} {address : Ipv6Addr}
    (h : parseLinkLocalAddress parseIpv6 name value = .ok address) :
    address.isUnicastLinkLocal = true := by
  unfold parseLinkLocalAddress at h
  split at h
  · cases h
  · split at h
    · cases h
    · split at h
      · cases h
      · rename_i hu
        cases h
        simpa using hu

/-- Manual addresses are link-local and differ. -/
theorem parseLinkLocal_ok {parseIpv6 : String → Option Ipv6Addr} {manualLla : Bool}
    {localLlIp remoteLlIp : Option String} {l r : Ipv6Addr}
    (h : parseLinkLocal parseIpv6 manualLla localLlIp remoteLlIp = .ok (some (l, r))) :
    l.isUnicastLinkLocal = true ∧ r.isUnicastLinkLocal = true ∧ l ≠ r := by
  unfold parseLinkLocal at h
  split at h
  · split at h <;> cases h
  · cases hl : parseLinkLocalAddress parseIpv6 "local_ll_ip" localLlIp with
    | error e => simp [hl, bind, Except.bind] at h
    | ok a =>
      cases hr : parseLinkLocalAddress parseIpv6 "remote_ll_ip" remoteLlIp with
      | error e => simp [hl, hr, bind, Except.bind] at h
      | ok b =>
        simp only [hl, hr, bind, Except.bind] at h
        split at h
        · cases h
        · rename_i hne
          cases h
          exact ⟨parseLinkLocalAddress_ok hl, parseLinkLocalAddress_ok hr, hne⟩

end Autopeer.RequestParsing
