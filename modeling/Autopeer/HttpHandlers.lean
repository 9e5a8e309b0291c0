import Autopeer.ChallengeSystem
import Autopeer.ManagerPrograms
import Autopeer.ProgramEmbedding
import Autopeer.SignedMessage

/-! The handlers of the API: they parse the fields of a request, authorize it by its challenge, hand it
to the peer manager and answer with a status and a body. The signature check, the URL parser and the
parser of IPv6 text are parameters. -/
namespace Autopeer.HttpHandlers
open Ipv6 PeerData RequestParsing SignedMessage ProgramTree ProgramEmbedding
open ManagerWorld ManagerPrograms ChallengeSystem

section Requests

structure Challenge where
  auth : String
  signature : String
  nonce : String
  expiresAt : Int64
  deriving DecidableEq

structure CreatePeerReq where
  asn : UInt32
  peerName : String
  pubkey : WgPubKey
  endpoint : Option String
  manualLla : Bool
  localLlIp : Option String
  remoteLlIp : Option String
  mtu : Option UInt16
  challenge : Challenge
  deriving DecidableEq

/-- An absent field, null and a value differ. -/
structure UpdatePeerReq where
  asn : UInt32
  peerName : String
  pubkey : WgPubKey
  endpoint : Option (Option String)
  manualLla : Bool
  localLlIp : Option String
  remoteLlIp : Option String
  mtu : Option (Option UInt16)
  challenge : Challenge
  deriving DecidableEq

structure DeletePeerReq where
  asn : UInt32
  peerName : String
  challenge : Challenge
  deriving DecidableEq

inductive HttpRequest
  | createChallenge (asn : UInt32)
  | createPeer (payload : CreatePeerReq)
  | updatePeer (payload : UpdatePeerReq)
  | deletePeer (payload : DeletePeerReq)
  deriving DecidableEq

def HttpRequest.asn : HttpRequest → UInt32
  | .createChallenge asn => asn
  | .createPeer payload => payload.asn
  | .updatePeer payload => payload.asn
  | .deletePeer payload => payload.asn

def HttpRequest.challenge? : HttpRequest → Option Challenge
  | .createChallenge _ => none
  | .createPeer payload => some payload.challenge
  | .updatePeer payload => some payload.challenge
  | .deletePeer payload => some payload.challenge

end Requests

section Replies

structure WgConfig where
  yourAssignedIp : String
  myEndpoint : String
  myPubkey : String
  allowedIps : String
  deriving DecidableEq

structure BgpConfig where
  myAsn : UInt32
  myNeighborIp : String
  multiprotocol : Bool
  extendedNextHop : Bool
  deriving DecidableEq

structure PeerResponse where
  status : String
  message : String
  peerId : UInt32
  peerName : String
  wgConfig : Option WgConfig
  bgpConfig : Option BgpConfig
  deriving DecidableEq

structure ErrorResponse where
  error : String
  detail : Option String
  deriving DecidableEq

inductive Body
  | challenge (nonce : String) (expiresAt : Int64)
  | peer (response : PeerResponse)
  | error (response : ErrorResponse)
  deriving DecidableEq

structure HttpReply where
  status : ℕ
  body : Body
  deriving DecidableEq

/-- `PeerError::into_response`: the status, the code and the detail that the client sees. -/
def intoResponse (e : PeerError) : HttpReply :=
  let reply status error detail : HttpReply := ⟨status, .error ⟨error, detail⟩⟩
  match e with
  | .unauthorizedChallenge detail => reply 403 "unauthorized_challenge" (some detail)
  | .invalidWgPubKeyLength len => reply 400 "invalid_wg_pubkey_length"
    (some ("WireGuard public key length must be 44, got " ++ toString len))
  | .invalidWgPubKeyBase64 source => reply 400 "invalid_wg_pubkey_base64"
    (some ("WireGuard public key must be valid base64: " ++ source))
  | .validation detail => reply 400 "validation_failed" (some detail)
  | .signatureVerificationFailed detail => reply 400 "signature_verification_failed" (some detail)
  | .registryMismatch => reply 403 "registry_mismatch"
    (some "Provided SSH key is not identical with DN42 registry records")
  | .registryUnavailable detail => reply 503 "registry_unavailable" (some detail)
  | .notFound asn peerName => reply 404 "not_found"
    (some ("Peer '" ++ peerName ++ "' with ASN " ++ toString asn ++ " not found"))
  | .alreadyExists asn peerName => reply 409 "already_exists"
    (some ("Peer '" ++ peerName ++ "' with ASN " ++ toString asn ++ " already exists"))
  | .netlink .. | .birdConfigIo .. | .birdReload _ | .nftables _ | .database _ =>
    reply 500 "internal_error" none

/-- What the peers of the service are told of it. -/
structure Site where
  publicEndpoint : String
  localWgPubkey : String

def createdReply (cfg : Config) (site : Site) (asn : UInt32) (peer : Peer) : HttpReply :=
  let test := asn = cfg.localAsn
  ⟨201, .peer
    { status := if test then "test" else "success"
      message :=
        if test then "Peer test passed. The database reservation was rolled back. " ++
          "No WireGuard, BIRD, or firewall configuration was applied."
        else "The server configured the peer in BIRD and the kernel"
      peerId := peer.peerId
      peerName := peer.peerName
      wgConfig := some
        { yourAssignedIp := peer.remoteLlIp.display ++ "/64"
          myEndpoint := site.publicEndpoint ++ ":" ++ toString peer.listenPort
          myPubkey := site.localWgPubkey
          allowedIps := "0.0.0.0/0, ::/0" }
      bgpConfig := some
        { myAsn := cfg.localAsn
          myNeighborIp := peer.localLlIp.display
          multiprotocol := true
          extendedNextHop := true } }⟩

/-- The answer to an update or a delete. -/
def changedReply (message : String) (peer : Peer) : HttpReply :=
  ⟨200, .peer ⟨"success", message, peer.peerId, peer.peerName, none, none⟩⟩

end Replies

section Handlers

abbrev ServiceCall := Call ⊕ Query

abbrev ServiceAnswer : ServiceCall → Type
  | .inl c => Answer c
  | .inr q => Result q

/-- The calls of the manager and those of the authorizer. -/
def managerCalls : Embedding Call Answer ServiceCall ServiceAnswer := ⟨.inl, fun _ r => r⟩

def authorizerCalls : Embedding Query Result ServiceCall ServiceAnswer := ⟨.inr, fun _ r => r⟩

abbrev Handler (α : Type) := Action PeerError ServiceCall ServiceAnswer α

variable (verify : String → String → String → Except PeerError Unit)
  (parseUrl : String → Option Url) (parseIpv6 : String → Option Ipv6Addr) (site : Site)
  (cfg : Config)

def createChallenge (asn : UInt32) : Handler HttpReply := do
  let (nonce, expiresAt) ← embedded authorizerCalls (issueChallenge asn)
  return ⟨201, .challenge nonce expiresAt⟩

def authorize (asn : UInt32) (challenge : Challenge) (message : String) : Handler Unit :=
  embedded authorizerCalls
    (authorizeRequest verify asn challenge.auth challenge.signature challenge.nonce
      challenge.expiresAt message)

/-- The parsers of a create, in their order. -/
def CreatePeerReq.parse (payload : CreatePeerReq) : Except PeerError Mutation := do
  let peerName ← parsePeerName payload.peerName
  let endpoint ← parseEndpoint parseUrl payload.endpoint
  let linkLocal ← parseLinkLocal parseIpv6 payload.manualLla payload.localLlIp payload.remoteLlIp
  return .create payload.asn peerName payload.pubkey endpoint linkLocal payload.mtu

def UpdatePeerReq.parse (payload : UpdatePeerReq) : Except PeerError Mutation := do
  let peerName ← parsePeerName payload.peerName
  let endpoint ← parseEndpointUpdate parseUrl payload.endpoint
  let linkLocal ← parseLinkLocal parseIpv6 payload.manualLla payload.localLlIp payload.remoteLlIp
  return .update payload.asn peerName payload.pubkey endpoint linkLocal payload.mtu

def DeletePeerReq.parse (payload : DeletePeerReq) : Except PeerError Mutation := do
  let peerName ← parsePeerName payload.peerName
  return .delete payload.asn peerName

section Parsed
variable {parseUrl parseIpv6} {α β : Type} {mutation : Mutation}

lemma except_bind_ok {x : Except PeerError α} {f : α → Except PeerError β} {b : β} :
    (x >>= f) = .ok b ↔ ∃ a, x = .ok a ∧ f a = .ok b := by
  cases x <;> simp [bind, Except.bind]

lemma CreatePeerReq.parse_ok {payload : CreatePeerReq}
    (h : payload.parse parseUrl parseIpv6 = .ok mutation) : ∃ peerName endpoint linkLocal,
      parsePeerName payload.peerName = .ok peerName ∧
      parseEndpoint parseUrl payload.endpoint = .ok endpoint ∧
      parseLinkLocal parseIpv6 payload.manualLla payload.localLlIp payload.remoteLlIp =
        .ok linkLocal ∧
      mutation = .create payload.asn peerName payload.pubkey endpoint linkLocal payload.mtu := by
  obtain ⟨peerName, hname, h⟩ := except_bind_ok.mp h
  obtain ⟨endpoint, hendpoint, h⟩ := except_bind_ok.mp h
  obtain ⟨linkLocal, hlink, h⟩ := except_bind_ok.mp h
  exact ⟨peerName, endpoint, linkLocal, hname, hendpoint, hlink, (Except.ok.inj h).symm⟩

lemma UpdatePeerReq.parse_ok {payload : UpdatePeerReq}
    (h : payload.parse parseUrl parseIpv6 = .ok mutation) : ∃ peerName endpoint linkLocal,
      parsePeerName payload.peerName = .ok peerName ∧
      parseEndpointUpdate parseUrl payload.endpoint = .ok endpoint ∧
      parseLinkLocal parseIpv6 payload.manualLla payload.localLlIp payload.remoteLlIp =
        .ok linkLocal ∧
      mutation = .update payload.asn peerName payload.pubkey endpoint linkLocal payload.mtu := by
  obtain ⟨peerName, hname, h⟩ := except_bind_ok.mp h
  obtain ⟨endpoint, hendpoint, h⟩ := except_bind_ok.mp h
  obtain ⟨linkLocal, hlink, h⟩ := except_bind_ok.mp h
  exact ⟨peerName, endpoint, linkLocal, hname, hendpoint, hlink, (Except.ok.inj h).symm⟩

lemma DeletePeerReq.parse_ok {payload : DeletePeerReq} (h : payload.parse = .ok mutation) :
    ∃ peerName, parsePeerName payload.peerName = .ok peerName ∧
      mutation = .delete payload.asn peerName := by
  obtain ⟨peerName, hname, h⟩ := except_bind_ok.mp h
  exact ⟨peerName, hname, (Except.ok.inj h).symm⟩

end Parsed

-- What a parser returns is used through the lemmas above.
attribute [irreducible] CreatePeerReq.parse UpdatePeerReq.parse DeletePeerReq.parse

/-- What the manager is asked to do for a parsed mutation. -/
def perform : Mutation → Manager Peer
  | .create asn peerName pubkey endpoint linkLocal mtu =>
    ManagerPrograms.createPeer cfg asn peerName pubkey endpoint linkLocal mtu
  | .update asn peerName pubkey endpoint linkLocal mtu =>
    ManagerPrograms.updatePeer cfg asn peerName pubkey endpoint linkLocal mtu
  | .delete asn peerName => ManagerPrograms.deletePeer asn peerName

def mutationReply : Mutation → Peer → HttpReply
  | .create asn .. => createdReply cfg site asn
  | .update .. => changedReply "The server updated the peer"
  | .delete .. => changedReply "The server removed the peer"

def asnOf : Mutation → UInt32
  | .create asn .. | .update asn .. | .delete asn .. => asn

/-- A handler of a mutation: parse, sign the text of the parsed fields, authorize, do it, answer. -/
def mutate (parsed : Except PeerError Mutation) (challenge : Challenge) : Handler HttpReply := do
  let mutation ← settled parsed
  authorize verify (asnOf mutation) challenge
    (mutation.message challenge.nonce challenge.expiresAt)
  let peer ← embedded managerCalls (perform cfg mutation)
  return mutationReply site cfg mutation peer

def createPeer (payload : CreatePeerReq) : Handler HttpReply :=
  mutate verify site cfg (payload.parse parseUrl parseIpv6) payload.challenge

def updatePeer (payload : UpdatePeerReq) : Handler HttpReply :=
  mutate verify site cfg (payload.parse parseUrl parseIpv6) payload.challenge

def deletePeer (payload : DeletePeerReq) : Handler HttpReply :=
  mutate verify site cfg payload.parse payload.challenge

/-- The error of a handler becomes its reply. -/
def respond : Except PeerError HttpReply → HttpReply
  | .ok reply => reply
  | .error error => intoResponse error

def handle : HttpRequest → Program ServiceCall ServiceAnswer HttpReply
  | .createChallenge asn => (createChallenge asn).run >>= fun r => .done (respond r)
  | .createPeer payload =>
    (createPeer verify parseUrl parseIpv6 site cfg payload).run >>= fun r => .done (respond r)
  | .updatePeer payload =>
    (updatePeer verify parseUrl parseIpv6 site cfg payload).run >>= fun r => .done (respond r)
  | .deletePeer payload =>
    (deletePeer verify site cfg payload).run >>= fun r => .done (respond r)

end Handlers

end Autopeer.HttpHandlers
