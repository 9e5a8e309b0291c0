import Autopeer.BirdGeneration
import Autopeer.ProgramTree

/-! What the peer manager works on: the tables with their trigger, the in-process locks, the
interfaces of the kernel, the nft set and BIRD; and what each call of the manager does to them,
well or badly. A call that fails may have taken effect all the same. -/
namespace Autopeer.ManagerWorld
open Ipv6 PeerData Template BirdGeneration ProgramTree

structure Config where
  localAsn : UInt32
  /-- The order of names under the collation of the database. -/
  nameLe : String → String → Bool

inductive Lock
  | peer (asn : UInt32) (peerName : String)
  | port
  | nft
  | bird
  deriving DecidableEq, Repr

abbrev SocketAddr := String

structure Iface where
  name : String
  ifAlias : Option String
  mtu : Option UInt16
  pubkey : Option WgPubKey
  endpoint : Option SocketAddr
  listenPort : Option UInt16
  addresses : List Ipv6Addr
  deriving DecidableEq, Repr

def newLink (name : String) : Iface := ⟨name, none, none, none, none, none, []⟩

/-- `current` is absent until the layout exists; `loaded` is what BIRD last read. -/
structure Bird where
  current : Option Generation
  loaded : Generation
  deriving DecidableEq

/-- The tables and sequences of the database. -/
structure Tables where
  peers : List Peer
  /-- History of the inserted rows. No call reads it. -/
  born : List Peer
  peerSeq : ℕ
  events : List PeerChange
  nextEvent : ℕ

namespace Tables
variable (t : Tables)

/-- The trigger: one event for each changed row, in the same commit. -/
def enqueue (operation : String) (peer : Peer) : Tables :=
  { t with
    events := t.events ++ [⟨t.nextEvent, operation, peer⟩]
    nextEvent := t.nextEvent + 1 }

def row? (peerId : UInt32) : Option Peer := t.peers.find? (·.peerId = peerId)

def rowOf? (asn : UInt32) (peerName : String) : Option Peer :=
  t.peers.find? fun r => r.asn = asn ∧ r.peerName = peerName

/-- One of the three unique keys of the table is taken. -/
def conflicts (p : Peer) : Bool :=
  t.peers.any fun r =>
    r.peerId = p.peerId || (r.asn = p.asn && r.peerName = p.peerName) || r.listenPort = p.listenPort

def insertRow (p : Peer) : Tables :=
  { t with peers := t.peers ++ [p], born := t.born ++ [p] }.enqueue "INSERT" p

def replaceRow (peerId : UInt32) (f : Peer → Peer) : Tables :=
  { t with peers := t.peers.map fun q => if q.peerId = peerId then f q else q }

def removeRow (peerId : UInt32) : Tables :=
  { t with peers := t.peers.filter fun q => q.peerId ≠ peerId }

def updateRow (peerId : UInt32) (f : Peer → Peer) : Bool × Tables :=
  match t.row? peerId with
  | none => (false, t)
  | some r => (true, (t.replaceRow peerId f).enqueue "UPDATE" (f r))

def deleteRow (peerId : UInt32) : Bool × Tables :=
  match t.row? peerId with
  | none => (false, t)
  | some r => (true, (t.removeRow peerId).enqueue "DELETE" r)

def deleteChange (eventId : ℕ) : Tables :=
  { t with events := t.events.filter fun e => e.eventId ≠ eventId }

end Tables

structure World extends Tables where
  locks : List Lock
  ifaces : List Iface
  nft : List UInt16
  bird : Bird

namespace World
variable (w : World)

def withTables (t : Tables) : World := { w with toTables := t }

def hasIface (name : String) : Bool := w.ifaces.any (·.name = name)

def addLink (name : String) : World :=
  if w.hasIface name then w else { w with ifaces := w.ifaces ++ [newLink name] }

def setIface (name : String) (f : Iface → Iface) : World :=
  { w with ifaces := w.ifaces.map fun i => if i.name = name then f i else i }

def dropIface (name : String) : World :=
  { w with ifaces := w.ifaces.filter fun i => i.name ≠ name }

end World

/-- The calls that can fail, as the manager makes them. -/
inductive Io
  | peerExists (asn : UInt32) (peerName : String)
  | getPeer (asn : UInt32) (peerName : String)
  | getPeerById (peerId : UInt32)
  | listPeers
  | listPeerChanges
  | deletePeerChange (eventId : ℕ)
  | nextPeerId
  | reservePeer (peer : Peer) (test : Bool)
  | updatePeerDesired (peer : Peer)
  | setStatus (peerId : UInt32) (status : PeerStatus)
  | deletePeer (peerId : UInt32)
  | listenPortInUse (port : UInt16)
  | ensureWgInterface (ifaceName : String) (peerId : UInt32) (mtu : UInt16)
  | configurePeer (ifaceName : String) (listenPort : UInt16) (pubkey : WgPubKey)
      (endpoint : Option SocketAddr)
  | configureLocalAddress (ifaceName : String) (address : Ipv6Addr)
  | deleteInterface (ifaceName : String)
  | listManagedInterfaces
  | runNftBatch (ports : List UInt16)
  | syncBirdFiles (peers : List Peer) (forceReload : Bool)
  deriving DecidableEq

abbrev Io.Value : Io → Type
  | .peerExists .. => Bool
  | .getPeer .. => Option Peer
  | .getPeerById _ => Option Peer
  | .listPeers => List Peer
  | .listPeerChanges => List PeerChange
  | .deletePeerChange _ => Bool
  | .nextPeerId => ℕ
  | .reservePeer .. => Bool
  | .updatePeerDesired _ => Bool
  | .setStatus .. => Bool
  | .deletePeer _ => Bool
  | .listenPortInUse _ => Bool
  | .ensureWgInterface .. => Unit
  | .configurePeer .. => Unit
  | .configureLocalAddress .. => Unit
  | .deleteInterface _ => Unit
  | .listManagedInterfaces => List String
  | .runNftBatch _ => Unit
  | .syncBirdFiles .. => Unit

inductive Call
  | lock (l : Lock)
  | unlock (l : Lock)
  | resolveEndpoint (endpoint : String)
  | io (c : Io)
  deriving DecidableEq

abbrev Answer : Call → Type
  | .lock _ => Unit
  | .unlock _ => Unit
  | .resolveEndpoint _ => Except PeerError SocketAddr
  | .io c => Except PeerError c.Value

/-- `ORDER BY asn, peer_name`. -/
def rowLe (cfg : Config) (a b : Peer) : Prop :=
  a.asn < b.asn ∨ (a.asn = b.asn ∧ cfg.nameLe a.peerName b.peerName)

instance (cfg : Config) : DecidableRel (rowLe cfg) := fun _ _ => by
  unfold rowLe
  infer_instance

def Tables.listPeers (t : Tables) (cfg : Config) : List Peer := t.peers.insertionSort (rowLe cfg)

/-- `ORDER BY event_id`. -/
def Tables.listPeerChanges (t : Tables) : List PeerChange :=
  t.events.insertionSort fun a b => a.eventId ≤ b.eventId

def desiredColumns (peer row : Peer) : Peer :=
  { row with
    ifaceName := peer.ifaceName
    pubkey := peer.pubkey
    endpoint := peer.endpoint
    localLlIp := peer.localLlIp
    remoteLlIp := peer.remoteLlIp
    status := .provisioning
    listenPort := peer.listenPort
    mtu := peer.mtu }

def aliasPrefix : String := "dn42-autopeer:"

def Iface.managed (i : Iface) : Bool :=
  match i.ifAlias with
  | some text => text.startsWith aliasPrefix
  | none => false

/-- The directory layout exists: `current` points to the empty generation if it was absent. -/
def Bird.laidOut (b : Bird) : Bird := { b with current := some (b.current.getD ∅) }

/-- The files BIRD finds under `current`. -/
def Bird.content (b : Bird) : Generation := b.current.getD ∅

/-- `sync_bird_configs_for` under its lock when no file-system step and no reload fails. -/
def Bird.sync (localAsn : UInt32) (peers : List Peer) (forceReload : Bool) (b : Bird) :
    Except PeerError Unit × Bird :=
  match desiredGeneration localAsn peers with
  | .error error => (.error error, b.laidOut)
  | .ok desired =>
    if b.laidOut.current = some desired then
      (.ok (), if forceReload then { b.laidOut with loaded := desired } else b.laidOut)
    else (.ok (), ⟨some desired, desired⟩)

/-- How far a failed `sync_bird_configs_for` came. -/
inductive BirdFailure
  /-- Nothing was switched; the layout may have been made. -/
  | early (laidOut : Bool)
  /-- `current` was switched and neither reloaded nor switched back. -/
  | stranded
  /-- The reload failed and `current` was switched back; the second reload may have worked. -/
  | restored (reloaded : Bool)
  /-- As `restored`, but the former target was not known and `current` was removed. -/
  | dropped (reloaded : Bool)
  deriving DecidableEq, Repr

def Bird.failed (localAsn : UInt32) (peers : List Peer) (f : BirdFailure) (b : Bird) : Option Bird :=
  match f, desiredGeneration localAsn peers with
  | .early laidOut, _ => some (if laidOut then b.laidOut else b)
  | _, .error _ => none
  | f, .ok desired =>
    if b.laidOut.current = some desired then none
    else
      match f with
      | .restored reloaded =>
        some (if reloaded then { b.laidOut with loaded := b.content } else b.laidOut)
      | .dropped reloaded => some ⟨none, if reloaded then ∅ else b.loaded⟩
      | _ => some { b with current := some desired }

def missingInterface (ifaceName : String) : PeerError := .netlink "Interface not found" ifaceName

/-- The last value of the integer sequence behind `peer_id`. -/
def lastPeerId : ℕ := 2147483647

/-- The answer and the effect of a call that works. -/
def effect (cfg : Config) : (c : Io) → World → Except PeerError c.Value × World
  | .peerExists asn peerName, w => (.ok (w.rowOf? asn peerName).isSome, w)
  | .getPeer asn peerName, w => (.ok (w.rowOf? asn peerName), w)
  | .getPeerById peerId, w => (.ok (w.row? peerId), w)
  | .listPeers, w => (.ok (w.listPeers cfg), w)
  | .listPeerChanges, w => (.ok w.listPeerChanges, w)
  | .deletePeerChange eventId, w =>
    (.ok (w.events.any (·.eventId = eventId)), w.withTables (w.deleteChange eventId))
  | .nextPeerId, w =>
    if w.peerSeq ≤ lastPeerId then (.ok w.peerSeq, { w with peerSeq := w.peerSeq + 1 })
    else (.error (.database "nextval: reached maximum value of sequence"), w)
  | .reservePeer peer test, w =>
    if w.conflicts peer then (.ok false, w)
    -- The rollback takes the row and its event back, but not the id that the trigger drew.
    else if test then (.ok true, { w with nextEvent := w.nextEvent + 1 })
    else (.ok true, w.withTables (w.insertRow { peer with status := .provisioning }))
  | .updatePeerDesired peer, w =>
    if (w.row? peer.peerId).isSome &&
        w.peers.any fun r => r.peerId ≠ peer.peerId && r.listenPort = peer.listenPort then
      (.error (.database "duplicate key value violates unique constraint"), w)
    else
      let result := w.updateRow peer.peerId (desiredColumns peer)
      (.ok result.1, w.withTables result.2)
  | .setStatus peerId status, w =>
    let result := w.updateRow peerId fun row => { row with status := status.stored }
    (.ok result.1, w.withTables result.2)
  | .deletePeer peerId, w =>
    let result := w.deleteRow peerId
    (.ok result.1, w.withTables result.2)
  | .listenPortInUse port, w => (.ok (w.ifaces.any (·.listenPort = some port)), w)
  | .ensureWgInterface ifaceName peerId mtu, w =>
    (.ok (), (w.addLink ifaceName).setIface ifaceName fun i =>
      { i with ifAlias := some (aliasPrefix ++ toString peerId), mtu := some mtu })
  | .configurePeer ifaceName listenPort pubkey endpoint, w =>
    if w.hasIface ifaceName then
      (.ok (), w.setIface ifaceName fun i =>
        { i with pubkey := some pubkey, endpoint := endpoint, listenPort := some listenPort })
    else (.error (missingInterface ifaceName), w)
  | .configureLocalAddress ifaceName address, w =>
    if w.hasIface ifaceName then
      (.ok (), w.setIface ifaceName fun i =>
        { i with addresses := i.addresses.filter (· ≠ address) ++ [address] })
    else (.error (missingInterface ifaceName), w)
  | .deleteInterface ifaceName, w => (.ok (), w.dropIface ifaceName)
  | .listManagedInterfaces, w => (.ok ((w.ifaces.filter Iface.managed).map Iface.name), w)
  | .runNftBatch ports, w => (.ok (), { w with nft := ports })
  | .syncBirdFiles peers forceReload, w =>
    let result := w.bird.sync cfg.localAsn peers forceReload
    (result.1, { w with bird := result.2 })

inductive Outcome
  | ok
  /-- DNS answers with an address. -/
  | resolved (address : SocketAddr)
  /-- The call fails without effect. -/
  | fail (error : PeerError)
  /-- The call takes effect, but an error is reported. -/
  | late (error : PeerError)
  /-- The interface is created, but not set up. -/
  | half (error : PeerError)
  | birdFails (failure : BirdFailure) (error : PeerError)

/-- The answer and the new state of a call under an outcome; `none` where the outcome is not one
of the call's, and while a lock is taken. -/
def exec (cfg : Config) : Outcome → (e : Call) → World → Option (Answer e × World)
  | .ok, .lock l, w => if l ∈ w.locks then none else some ((), { w with locks := l :: w.locks })
  | .ok, .unlock l, w => some ((), { w with locks := w.locks.erase l })
  | .ok, .io c, w => some (effect cfg c w)
  | .resolved address, .resolveEndpoint _, w => some (.ok address, w)
  | .fail error, .resolveEndpoint _, w => some (.error error, w)
  | .fail error, .io _, w => some (.error error, w)
  | .late _, .io (.syncBirdFiles ..), _ => none
  | .late error, .io c, w => some (.error error, (effect cfg c w).2)
  | .half error, .io (.ensureWgInterface ifaceName _ _), w =>
    some (.error error, w.addLink ifaceName)
  | .birdFails failure error, .io (.syncBirdFiles peers _), w =>
    (w.bird.failed cfg.localAsn peers failure).map fun b => (.error error, { w with bird := b })
  | _, _, _ => none

end Autopeer.ManagerWorld
