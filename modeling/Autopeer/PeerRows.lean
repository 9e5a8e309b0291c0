import Autopeer.ManagerWorld

/-! The rows of the table `peers`: the columns that the two writers bind, and `row_to_peer`, which
checks every column on the way back. -/
namespace Autopeer.PeerRows
open PeerData Ipv6 ManagerWorld

structure Row where
  peerId : Int32
  asn : Int64
  peerName : String
  ifaceName : String
  pubkey : String
  endpoint : Option String
  localLlIp : String
  remoteLlIp : String
  status : String
  listenPort : Int32
  /-- Absent where the column does not read as a number. -/
  mtu : Option Int32
  deriving DecidableEq

section Casts

def u32AsI32 (n : UInt32) : Int32 := n.toInt32

def u32AsI64 (n : UInt32) : Int64 := n.toUInt64.toInt64

def u16AsI32 (n : UInt16) : Int32 := n.toUInt32.toInt32

def u32TryFrom (n : ℤ) : Option UInt32 :=
  if 0 ≤ n ∧ n < 2 ^ 32 then some (.ofNat n.toNat) else none

def u16TryFrom (n : ℤ) : Option UInt16 :=
  if 0 ≤ n ∧ n < 2 ^ 16 then some (.ofNat n.toNat) else none

lemma u32TryFrom_toNat (n : UInt32) : u32TryFrom n.toNat = some n := by
  have hn := n.toNat_lt
  unfold u32TryFrom
  rw [if_pos (by omega), Int.toNat_natCast, UInt32.ofNat_toNat]

lemma u16TryFrom_toNat (n : UInt16) : u16TryFrom n.toNat = some n := by
  have hn := n.toNat_lt
  unfold u16TryFrom
  rw [if_pos (by omega), Int.toNat_natCast, UInt16.ofNat_toNat]

lemma toInt_u32AsI32 {n : UInt32} (h : n.toNat < 2 ^ 31) : (u32AsI32 n).toInt = n.toNat := by
  have hbits : (u32AsI32 n).toInt = n.toBitVec.toInt := rfl
  rw [hbits, BitVec.toInt_eq_toNat_of_lt]
  · rfl
  · have : n.toBitVec.toNat = n.toNat := rfl
    omega

lemma toInt_u32AsI64 (n : UInt32) : (u32AsI64 n).toInt = n.toNat := by
  have hn := n.toNat_lt
  have hbits : (u32AsI64 n).toInt = n.toUInt64.toBitVec.toInt := rfl
  have hnat : n.toUInt64.toBitVec.toNat = n.toNat := UInt32.toNat_toUInt64 n
  rw [hbits, BitVec.toInt_eq_toNat_of_lt (by omega), hnat]

lemma toInt_u16AsI32 (n : UInt16) : (u16AsI32 n).toInt = n.toNat := by
  have hn := n.toNat_lt
  have hnat : n.toUInt32.toNat = n.toNat := UInt16.toNat_toUInt32 n
  have hcast := @toInt_u32AsI32 n.toUInt32 (by omega)
  rw [hnat] at hcast
  exact hcast

lemma u32AsI32_injective : Function.Injective u32AsI32 := fun _ _ h => by
  have := congrArg Int32.toUInt32 h
  simpa [u32AsI32] using this

lemma u32AsI64_injective : Function.Injective u32AsI64 := fun a b h => by
  have := congrArg Int64.toInt h
  rw [toInt_u32AsI64, toInt_u32AsI64] at this
  exact UInt32.toNat_inj.mp (by omega)

lemma u16AsI32_injective : Function.Injective u16AsI32 := fun a b h => by
  have := congrArg Int32.toInt h
  rw [toInt_u16AsI32, toInt_u16AsI32] at this
  exact UInt16.toNat_inj.mp (by omega)

end Casts

section Writers

/-- The row that `reserve_peer` inserts. -/
def reserveRow (peer : Peer) : Row where
  peerId := u32AsI32 peer.peerId
  asn := u32AsI64 peer.asn
  peerName := peer.peerName
  ifaceName := peer.ifaceName
  pubkey := peer.pubkey.text
  endpoint := peer.endpoint
  localLlIp := peer.localLlIp.display
  remoteLlIp := peer.remoteLlIp.display
  status := "provisioning"
  listenPort := u16AsI32 peer.listenPort
  mtu := some (u16AsI32 peer.mtu)

/-- The row that `update_peer_desired` leaves. -/
def updateRow (peer : Peer) (row : Row) : Row :=
  { row with
    ifaceName := peer.ifaceName
    pubkey := peer.pubkey.text
    endpoint := peer.endpoint
    localLlIp := peer.localLlIp.display
    remoteLlIp := peer.remoteLlIp.display
    status := "provisioning"
    listenPort := u16AsI32 peer.listenPort
    mtu := some (u16AsI32 peer.mtu) }

def statusRow (status : PeerStatus) (row : Row) : Row := { row with status := statusToStr status }

/-- `ON CONFLICT`: one of the three unique keys is the same. -/
def Row.sameKey (r s : Row) : Bool :=
  r.peerId = s.peerId || (r.asn = s.asn && r.peerName = s.peerName) || r.listenPort = s.listenPort

def reservePeer (peer : Peer) (test : Bool) (rows : List Row) : Bool × List Row :=
  if rows.any (·.sameKey (reserveRow peer)) then (false, rows)
  else if test then (true, rows)
  else (true, rows ++ [reserveRow peer])

/-- Where another row has the port, the statement fails on the unique key. -/
def updatePeerDesired (peer : Peer) (rows : List Row) : Except PeerError Bool × List Row :=
  let named (row : Row) : Bool := row.peerId = u32AsI32 peer.peerId
  if rows.any named &&
      rows.any fun row => !named row && row.listenPort = u16AsI32 peer.listenPort then
    (.error (.database "duplicate key value violates unique constraint"), rows)
  else (.ok (rows.any named), rows.map fun row => if named row then updateRow peer row else row)

def setStatus (peerId : UInt32) (status : PeerStatus) (rows : List Row) : Bool × List Row :=
  let named (row : Row) : Bool := row.peerId = u32AsI32 peerId
  (rows.any named, rows.map fun row => if named row then statusRow status row else row)

def deletePeer (peerId : UInt32) (rows : List Row) : Bool × List Row :=
  let named (row : Row) : Bool := row.peerId = u32AsI32 peerId
  (rows.any named, rows.filter fun row => !named row)

end Writers

section Reader

/-- What the reader takes from other crates: the base64 decoder and the address parser. -/
structure Readers where
  decode : String → Except String (List UInt8)
  parse : String → Option Ipv6Addr

variable (rd : Readers)

def require {α : Type} (detail : String) : Option α → Except PeerError α
  | none => .error (.validation detail)
  | some a => .ok a

def rowToPeer (row : Row) : Except PeerError Peer := do
  let peerId ← require "The database contains an invalid peer ID" (u32TryFrom row.peerId.toInt)
  let asn ← require "The database contains an invalid ASN" (u32TryFrom row.asn.toInt)
  let pubkey ← WgPubKey.tryFrom rd.decode row.pubkey
  let localLlIp ← require
    ("The database contains an invalid local address for AS" ++ toString asn)
    (rd.parse row.localLlIp)
  let remoteLlIp ← require
    ("The database contains an invalid remote address for AS" ++ toString asn)
    (rd.parse row.remoteLlIp)
  let listenPort ← require
    ("The database contains an invalid listen port for AS" ++ toString asn)
    (u16TryFrom row.listenPort.toInt)
  let mtu := (u16TryFrom ((row.mtu.getD 1420).toInt)).getD 1420
  return {
    peerId := peerId
    peerName := row.peerName
    ifaceName := row.ifaceName
    asn := asn
    pubkey := pubkey
    endpoint := row.endpoint
    localLlIp := localLlIp
    remoteLlIp := remoteLlIp
    status := strToStatus row.status
    listenPort := listenPort
    mtu := mtu }

/-- `ORDER BY asn, peer_name`. -/
def rowOrder (cfg : Config) (r s : Row) : Prop :=
  r.asn.toInt < s.asn.toInt ∨ (r.asn.toInt = s.asn.toInt ∧ cfg.nameLe r.peerName s.peerName)

instance (cfg : Config) : DecidableRel (rowOrder cfg) := fun _ _ => by
  unfold rowOrder
  infer_instance

def listPeers (cfg : Config) (rows : List Row) : Except PeerError (List Peer) :=
  (rows.insertionSort (rowOrder cfg)).mapM (rowToPeer rd)

end Reader

end Autopeer.PeerRows
