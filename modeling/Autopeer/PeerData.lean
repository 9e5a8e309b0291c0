import Mathlib
import Autopeer.Ipv6

/-! The data of a peer: its row, its status and the text of the status, the change events that
the trigger records, and the errors of the service. -/
namespace Autopeer.PeerData
open Ipv6

inductive PeerError
  | invalidWgPubKeyLength (len : ℕ)
  | invalidWgPubKeyBase64 (source : String)
  | netlink (source ifaceName : String)
  | birdConfigIo (source path : String)
  | birdReload (stderr : String)
  | nftables (detail : String)
  | unauthorizedChallenge (detail : String)
  | validation (detail : String)
  | database (source : String)
  | signatureVerificationFailed (detail : String)
  | registryMismatch
  | registryUnavailable (detail : String)
  | notFound (asn : UInt32) (peerName : String)
  | alreadyExists (asn : UInt32) (peerName : String)
  deriving DecidableEq, Repr

inductive PeerStatus
  | provisioning
  | active
  | deleting
  | disabled
  | error (detail : String)
  deriving DecidableEq, Repr

def statusToStr : PeerStatus → String
  | .provisioning => "provisioning"
  | .active => "active"
  | .deleting => "deleting"
  | .disabled => "disabled"
  | .error _ => "error"

def strToStatus (status : String) : PeerStatus :=
  if status = "provisioning" then .provisioning
  else if status = "active" then .active
  else if status = "deleting" then .deleting
  else if status = "disabled" then .disabled
  else .error ("unknown database status: " ++ status)

/-- A status as it reads back after it was stored. -/
def PeerStatus.stored (status : PeerStatus) : PeerStatus := strToStatus (statusToStr status)

@[simp] lemma stored_provisioning : PeerStatus.provisioning.stored = .provisioning := by decide
@[simp] lemma stored_active : PeerStatus.active.stored = .active := by decide
@[simp] lemma stored_deleting : PeerStatus.deleting.stored = .deleting := by decide
@[simp] lemma stored_disabled : PeerStatus.disabled.stored = .disabled := by decide

/-- The text of a key whose length and base64 form were checked. -/
structure WgPubKey where
  text : String
  deriving DecidableEq, Repr

/-- The check of a key; `decode` is the base64 decoder. -/
def WgPubKey.tryFrom (decode : String → Except String (List UInt8)) (value : String) :
    Except PeerError WgPubKey :=
  if value.utf8ByteSize ≠ 44 then .error (.invalidWgPubKeyLength value.utf8ByteSize)
  else
    match decode value with
    | .error source => .error (.invalidWgPubKeyBase64 source)
    | .ok _ => .ok ⟨value⟩

/-- An accepted key is the text itself. -/
lemma tryFrom_ok {decode : String → Except String (List UInt8)} {text : String} {key : WgPubKey}
    (h : WgPubKey.tryFrom decode text = .ok key) : key.text = text ∧ ∃ bytes, decode text = .ok bytes := by
  unfold WgPubKey.tryFrom at h
  split at h
  · cases h
  · split at h
    · cases h
    · rename_i bytes hd
      cases h
      exact ⟨rfl, bytes, hd⟩

structure Peer where
  peerId : UInt32
  peerName : String
  ifaceName : String
  asn : UInt32
  pubkey : WgPubKey
  endpoint : Option String
  localLlIp : Ipv6Addr
  remoteLlIp : Ipv6Addr
  status : PeerStatus
  listenPort : UInt16
  mtu : UInt16
  deriving DecidableEq, Repr

/-- The public identity of a machine. -/
abbrev Pair := UInt32 × String

def Peer.pair (p : Peer) : Pair := (p.asn, p.peerName)

/-- Neither Deleting nor Disabled: the peers that the external state should carry. -/
def Peer.enabled (p : Peer) : Bool := p.status != .deleting && p.status != .disabled

structure PeerChange where
  eventId : ℕ
  operation : String
  peer : Peer
  deriving DecidableEq, Repr

/-- The interface name `wgp{peer_id}`. -/
def wgpName (peerId : UInt32) : String := "wgp" ++ toString peerId

theorem wgpName_injective : Function.Injective wgpName := by
  intro a b h
  have hs : toString a = toString b := by
    have := congrArg String.toList h
    simp only [wgpName, String.toList_append, List.append_cancel_left_eq] at this
    exact String.toList_inj.mp this
  exact UInt32.toNat_inj.mp (Nat.repr_inj.mp hs)

@[simp] lemma wgpName_inj {a b : UInt32} : wgpName a = wgpName b ↔ a = b :=
  wgpName_injective.eq_iff

end Autopeer.PeerData
