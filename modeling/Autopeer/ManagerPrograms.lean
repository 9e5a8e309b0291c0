import Autopeer.ManagerWorld

/-! The functions of the peer manager as programs over its calls. A guard is released when its
scope ends, well or badly; `?` is the sequencing of actions. -/
namespace Autopeer.ManagerPrograms
open Ipv6 PeerData Template ProgramTree ManagerWorld

abbrev Manager (α : Type) := Action PeerError Call Answer α

def io (c : Io) : Manager c.Value := ExceptT.mk (.call (.io c) .done)

/-- Hold a lock for the time of `body`. -/
def withLock {α : Type} (l : Lock) (body : Manager α) : Manager α :=
  ExceptT.mk (.call (.lock l) fun _ =>
    body.run >>= fun result => .call (.unlock l) fun _ => .done result)

def resolveEndpoint (endpoint : String) : Manager SocketAddr :=
  ExceptT.mk (.call (.resolveEndpoint endpoint) .done)

def allocatePeerId : Manager UInt32 := do
  let peerId ← io .nextPeerId
  if peerId < 2 ^ 32 then return .ofNat peerId
  else throw (.validation "The peer ID sequence is exhausted")

section Sync

def dedup : List UInt16 → List UInt16
  | a :: b :: l => if a = b then dedup (b :: l) else a :: dedup (b :: l)
  | l => l

/-- The listen ports of the enabled peers, sorted and without repetition. -/
def nftPorts (peers : List Peer) : List UInt16 :=
  dedup (((peers.filter Peer.enabled).map Peer.listenPort).insertionSort (· ≤ ·))

def syncNftPortsFor (peers : List Peer) : Manager Unit :=
  withLock .nft (io (.runNftBatch (nftPorts peers)))

def syncNftPorts : Manager Unit := do
  let peers ← io .listPeers
  syncNftPortsFor peers

def syncBirdConfigsFor (peers : List Peer) (forceReload : Bool) : Manager Unit :=
  withLock .bird (io (.syncBirdFiles peers forceReload))

def syncBirdConfigs : Manager Unit := do
  let peers ← io .listPeers
  syncBirdConfigsFor peers false

end Sync

section External

def resolveOptional : Option String → Manager (Option SocketAddr)
  | some endpoint => do
    let address ← resolveEndpoint endpoint
    return some address
  | none => return none

def applyWireguard (peer : Peer) : Manager Unit := do
  io (.ensureWgInterface peer.ifaceName peer.peerId peer.mtu)
  let endpoint ← resolveOptional peer.endpoint
  io (.configurePeer peer.ifaceName peer.listenPort peer.pubkey endpoint)
  io (.configureLocalAddress peer.ifaceName peer.localLlIp)

def applyPeer (peer : Peer) : Manager Unit := do
  applyWireguard peer
  syncBirdConfigs

def removeExternalState (peer : Peer) : Manager Unit := do
  syncBirdConfigs
  io (.deleteInterface peer.ifaceName)

def compensateFailedCreate (peer : Peer) : Manager Unit := do
  let _ ← attempt (io (.setStatus peer.peerId .deleting))
  match ← attempt (removeExternalState peer) with
  | .ok _ => do
    let _ ← attempt (io (.deletePeer peer.peerId))
    let _ ← attempt syncNftPorts
  | .error _ => do
    let _ ← attempt syncNftPorts

def compensateFailedUpdate (oldPeer : Peer) : Manager Unit := do
  match ← attempt (io (.updatePeerDesired oldPeer)) with
  | .error _ => return
  | .ok _ =>
    match ← attempt (applyPeer oldPeer) with
    | .error _ => return
    | .ok _ => do
      let _ ← attempt (io (.setStatus oldPeer.peerId .active))

end External

section Requests

variable (cfg : Config)

def buildPeer (peerId asn : UInt32) (peerName : String) (pubkey : WgPubKey)
    (endpoint : Option String) (linkLocal : Ipv6Addr × Ipv6Addr) (listenPort mtu : UInt16) : Peer :=
  { peerId, peerName, ifaceName := wgpName peerId, asn, pubkey, endpoint,
    localLlIp := linkLocal.1, remoteLlIp := linkLocal.2, status := .provisioning, listenPort, mtu }

/-- The port that the search tries at an increment below 10000. -/
def searchPort (asn : UInt32) (increment : ℕ) : UInt16 :=
  let offset := (asn % 10000 + UInt32.ofNat increment) % 10000
  20000 + offset.toUInt16

/-- The search for a free port, with the increments still to try. -/
def reserveFrom (asn : UInt32) (peerName : String) (test : Bool) (peerAt : UInt16 → Peer) :
    List ℕ → Manager Peer
  | [] => throw (.validation "No WireGuard listen port is available from 20000 through 29999")
  | increment :: increments => do
    let listenPort := searchPort asn increment
    if ← io (.listenPortInUse listenPort) then
      reserveFrom asn peerName test peerAt increments
    else if ← io (.reservePeer (peerAt listenPort) test) then
      return peerAt listenPort
    else if ← io (.peerExists asn peerName) then
      throw (.alreadyExists asn peerName)
    else reserveFrom asn peerName test peerAt increments

def reservePeer (asn : UInt32) (peerName : String) (pubkey : WgPubKey) (endpoint : Option String)
    (linkLocal : Option (Ipv6Addr × Ipv6Addr)) (mtu : UInt16) : Manager Peer := do
  let peerId ← allocatePeerId
  let linkLocal := linkLocal.getD (asnLinkLocal cfg.localAsn, asnLinkLocal asn)
  reserveFrom asn peerName (asn = cfg.localAsn)
    (fun listenPort => buildPeer peerId asn peerName pubkey endpoint linkLocal listenPort mtu)
    (List.range 10000)

/-- The part of a create after the reservation. -/
def provision (asn : UInt32) (peer : Peer) : Manager Peer := do
  match ← attempt (applyPeer peer) with
  | .error error => do
    compensateFailedCreate peer
    throw error
  | .ok _ =>
  match ← attempt syncNftPorts with
  | .error error => do
    compensateFailedCreate peer
    throw error
  | .ok _ =>
  match ← attempt (io (.setStatus peer.peerId .active)) with
  | .ok true => return { peer with status := .active }
  | .ok false => do
    compensateFailedCreate peer
    throw (.notFound asn peer.peerName)
  | .error error => do
    compensateFailedCreate peer
    throw error

def createPeer (asn : UInt32) (peerName : String) (pubkey : WgPubKey) (endpoint : Option String)
    (linkLocal : Option (Ipv6Addr × Ipv6Addr)) (mtu : Option UInt16) : Manager Peer :=
  withLock (.peer asn peerName) do
    if ← io (.peerExists asn peerName) then
      throw (.alreadyExists asn peerName)
    else do
      let peer ← withLock .port
        (reservePeer cfg asn peerName pubkey endpoint linkLocal (mtu.getD 1420))
      if asn = cfg.localAsn then return peer
      else provision asn peer

/-- `ok_or_else(NotFound)?` on the row of a pair. -/
def orNotFound (asn : UInt32) (peerName : String) : Option Peer → Manager Peer
  | some peer => return peer
  | none => throw (.notFound asn peerName)

def desiredPeer (asn : UInt32) (pubkey : WgPubKey) (endpoint : Option (Option String))
    (linkLocal : Option (Ipv6Addr × Ipv6Addr)) (mtu : Option (Option UInt16)) (oldPeer : Peer) :
    Peer :=
  { oldPeer with
    pubkey := pubkey
    endpoint := endpoint.getD oldPeer.endpoint
    localLlIp := linkLocal.elim (asnLinkLocal cfg.localAsn) Prod.fst
    remoteLlIp := linkLocal.elim (asnLinkLocal asn) Prod.snd
    mtu := (mtu.getD (some oldPeer.mtu)).getD 1420
    status := .provisioning }

/-- The part of an update after the desired row was stored. -/
def reprovision (asn : UInt32) (peerName : String) (oldPeer desiredPeer : Peer) : Manager Peer := do
  match ← attempt (applyPeer desiredPeer) with
  | .error error => do
    compensateFailedUpdate oldPeer
    throw error
  | .ok _ =>
    if ← io (.setStatus desiredPeer.peerId .active) then
      return { desiredPeer with status := .active }
    else throw (.notFound asn peerName)

def updatePeer (asn : UInt32) (peerName : String) (pubkey : WgPubKey)
    (endpoint : Option (Option String)) (linkLocal : Option (Ipv6Addr × Ipv6Addr))
    (mtu : Option (Option UInt16)) : Manager Peer :=
  withLock (.peer asn peerName) do
    let row ← io (.getPeer asn peerName)
    let oldPeer ← orNotFound asn peerName row
    if oldPeer.status = .deleting then throw (.notFound asn peerName)
    else do
      let desired := desiredPeer cfg asn pubkey endpoint linkLocal mtu oldPeer
      if ← io (.updatePeerDesired desired) then
        reprovision asn peerName oldPeer desired
      else throw (.notFound asn peerName)

/-- The part of a delete after the row was marked. -/
def dismantle (asn : UInt32) (peerName : String) (peer : Peer) : Manager Peer := do
  match ← attempt syncNftPorts with
  | .error error => do
    let _ ← attempt (io (.setStatus peer.peerId .active))
    throw error
  | .ok _ =>
  match ← attempt (removeExternalState peer) with
  | .error error => do
    match ← attempt (io (.setStatus peer.peerId .active)) with
    | .error _ => throw error
    | .ok _ =>
      match ← attempt (applyPeer peer) with
      | .error _ => throw error
      | .ok _ => do
        let _ ← attempt syncNftPorts
        throw error
  | .ok _ =>
    -- If this delete fails, the durable deleting state makes startup finish the operation.
    if ← io (.deletePeer peer.peerId) then return peer
    else throw (.notFound asn peerName)

def deletePeer (asn : UInt32) (peerName : String) : Manager Peer :=
  withLock (.peer asn peerName) do
    let row ← io (.getPeer asn peerName)
    let peer ← orNotFound asn peerName row
    if ← io (.setStatus peer.peerId .deleting) then dismantle asn peerName peer
    else throw (.notFound asn peerName)

end Requests

section Changes

def settleRow (snapshot : Peer) : Option Peer → Manager Unit
  | some peer =>
    if peer.status ≠ .deleting ∧ peer.status ≠ .disabled then do
      applyPeer peer
      if peer.status ≠ .active then
        if ← io (.setStatus peer.peerId .active) then return
        else throw (.notFound peer.asn peer.peerName)
      else return
    else if peer.status = .deleting then do
      removeExternalState peer
      if ← io (.deletePeer peer.peerId) then return
      else throw (.notFound peer.asn peer.peerName)
    else removeExternalState peer
  | none => removeExternalState snapshot

def applyPeerChange (change : PeerChange) : Manager Unit :=
  withLock (.peer change.peer.asn change.peer.peerName) do
    let row ← io (.getPeerById change.peer.peerId)
    settleRow change.peer row
    syncNftPorts

/-- One listed event: its error, if the event or its removal failed. -/
def processChange (change : PeerChange) : Manager (Option PeerError) := do
  match ← attempt (applyPeerChange change) with
  | .error error => return some error
  | .ok _ =>
    match ← attempt (io (.deletePeerChange change.eventId)) with
    | .ok _ => return none
    | .error error => return some error

/-- The pass over the listed events, with the first error so far. -/
def processChanges (firstError : Option PeerError) : List PeerChange → Manager Unit
  | [] =>
    match firstError with
    | some error => throw error
    | none => return
  | change :: changes => do
    let error ← processChange change
    processChanges (firstError.or error) changes

def syncPendingPeerChanges : Manager Unit := do
  let changes ← io .listPeerChanges
  processChanges none changes

end Changes

section Recovery

def removeStopped (peer : Peer) : Manager Unit :=
  withLock (.peer peer.asn peer.peerName) (io (.deleteInterface peer.ifaceName))

def removeUnlessDesired (desiredInterfaces : List String) (ifaceName : String) : Manager Unit :=
  if ifaceName ∈ desiredInterfaces then return else io (.deleteInterface ifaceName)

def removeDeleted (change : PeerChange) : Manager Unit := do
  if change.operation = "DELETE" then
    let row ← io (.getPeerById change.peer.peerId)
    if row.isNone ∧ change.peer.ifaceName = wgpName change.peer.peerId then
      io (.deleteInterface change.peer.ifaceName)
    else return
  else return

def finishDelete (peer : Peer) : Manager Unit := do
  if ← io (.deletePeer peer.peerId) then return
  else throw (.notFound peer.asn peer.peerName)

def activate (peer : Peer) : Manager Unit :=
  withLock (.peer peer.asn peer.peerName) do
    if ← io (.setStatus peer.peerId .active) then return
    else throw (.notFound peer.asn peer.peerName)

def recover : Manager Unit := do
  let peers ← io .listPeers
  let desired := peers.filter Peer.enabled
  desired.forM applyWireguard
  syncNftPortsFor peers
  syncBirdConfigsFor peers true
  (peers.filter fun peer => !peer.enabled).forM removeStopped
  let managed ← io .listManagedInterfaces
  managed.forM (removeUnlessDesired (desired.map Peer.ifaceName))
  let changes ← io .listPeerChanges
  changes.forM removeDeleted
  (peers.filter fun peer => peer.status = .deleting).forM finishDelete
  desired.forM activate

end Recovery

end Autopeer.ManagerPrograms
