import Autopeer.PeerRows

/-! The second decoder of a row: `get_peer_infos_by_asn`, which casts the numbers that `row_to_peer`
checks. -/
namespace Autopeer.StatusView
open PeerData Ipv6 ManagerWorld PeerRows

/-- A row with its two times in seconds. -/
structure TimedRow extends Row where
  createdAt : Option Int64
  updatedAt : Option Int64
  deriving DecidableEq

structure PeerInfo where
  peerName : String
  pubkey : String
  endpoint : Option String
  localLlIp : String
  remoteLlIp : String
  status : String
  listenPort : UInt16
  mtu : UInt16
  createdAt : Int64
  updatedAt : Int64
  deriving DecidableEq, Repr

/-- The low half of the bits. -/
def i32AsU16 (n : Int32) : UInt16 := n.toUInt32.toUInt16

def peerInfo (row : TimedRow) : PeerInfo where
  peerName := row.peerName
  pubkey := row.pubkey
  endpoint := row.endpoint
  localLlIp := row.localLlIp
  remoteLlIp := row.remoteLlIp
  status := row.status
  listenPort := i32AsU16 row.listenPort
  mtu := i32AsU16 (row.mtu.getD 1420)
  createdAt := row.createdAt.getD 0
  updatedAt := row.updatedAt.getD 0

/-- `ORDER BY peer_name`. -/
def nameOrder (cfg : Config) (r s : TimedRow) : Prop := cfg.nameLe r.peerName s.peerName

instance (cfg : Config) : DecidableRel (nameOrder cfg) := fun _ _ => by
  unfold nameOrder
  infer_instance

def getPeerInfosByAsn (cfg : Config) (asn : UInt32) (rows : List TimedRow) : List PeerInfo :=
  ((rows.filter (·.asn = u32AsI64 asn)).insertionSort (nameOrder cfg)).map peerInfo

section Casts
variable {n : Int32}

lemma toNat_i32AsU16 (n : Int32) : ((i32AsU16 n).toNat : ℤ) = n.toInt % 65536 := by
  have hbits : (i32AsU16 n).toNat = n.toBitVec.toNat % 2 ^ 16 := UInt32.toNat_toUInt16 n.toUInt32
  have hint : n.toInt = n.toBitVec.toInt := rfl
  have hcond := BitVec.toInt_eq_toNat_cond n.toBitVec
  have hlt := n.toBitVec.isLt
  rw [hbits, hint, hcond]
  split <;> omega

/-- A number in the range is the same under the check and under the cast. -/
lemma u16TryFrom_eq {m : UInt16} (h : u16TryFrom n.toInt = some m) : i32AsU16 n = m := by
  have hcast := toNat_i32AsU16 n
  unfold u16TryFrom at h
  split at h
  · rename_i hrange
    obtain rfl := Option.some.inj h
    apply UInt16.toNat_inj.mp
    rw [UInt16.toNat_ofNat']
    omega
  · cases h

lemma u16TryFrom_none (h : u16TryFrom n.toInt = none) : ¬(0 ≤ n.toInt ∧ n.toInt < 65536) := by
  unfold u16TryFrom at h
  split at h
  · cases h
  · assumption

/-- The column is a number that both decoders read alike. -/
def Fits (n : Int32) : Prop := 0 ≤ n.toInt ∧ n.toInt < 65536 ∨ n.toInt % 65536 = 1420

instance (n : Int32) : Decidable (Fits n) := inferInstanceAs (Decidable (_ ∨ _))

lemma i32AsU16_eq_iff (n : Int32) : i32AsU16 n = (u16TryFrom n.toInt).getD 1420 ↔ Fits n := by
  cases h : u16TryFrom n.toInt with
  | some m =>
    have hrange : 0 ≤ n.toInt ∧ n.toInt < 65536 := by
      unfold u16TryFrom at h
      split at h
      · assumption
      · cases h
    exact ⟨fun _ => .inl hrange, fun _ => u16TryFrom_eq h⟩
  | none =>
    have hcast := toNat_i32AsU16 n
    have hout := u16TryFrom_none h
    rw [Option.getD_none, ← UInt16.toNat_inj, Fits]
    have hdefault : (1420 : UInt16).toNat = 1420 := rfl
    rw [hdefault]
    omega

end Casts

section Agreement
variable (rd : Readers)

/-- The status shows what was applied for the peer. -/
structure Agrees (info : PeerInfo) (p : Peer) : Prop where
  listenPort : info.listenPort = p.listenPort
  mtu : info.mtu = p.mtu
  pubkey : info.pubkey = p.pubkey.text
  endpoint : info.endpoint = p.endpoint
  localLlIp : rd.parse info.localLlIp = some p.localLlIp
  remoteLlIp : rd.parse info.remoteLlIp = some p.remoteLlIp

variable {rd} {row : Row} {p : Peer}

lemma require_ok {α : Type} {detail : String} {o : Option α} {a : α} (h : require detail o = .ok a) :
    o = some a := by
  cases o with
  | none => cases h
  | some b => exact congrArg some (Except.ok.inj h)

lemma bind_ok {α β : Type} {x : Except PeerError α} {f : α → Except PeerError β} {b : β}
    (h : (x >>= f) = .ok b) : ∃ a, x = .ok a ∧ f a = .ok b := by
  cases x with
  | error e => cases h
  | ok a => exact ⟨a, rfl, h⟩

/-- What a row that decodes tells of its columns. -/
lemma rowToPeer_ok (h : rowToPeer rd row = .ok p) :
    u32TryFrom row.asn.toInt = some p.asn ∧ p.pubkey.text = row.pubkey ∧
      rd.parse row.localLlIp = some p.localLlIp ∧ rd.parse row.remoteLlIp = some p.remoteLlIp ∧
      u16TryFrom row.listenPort.toInt = some p.listenPort ∧ row.endpoint = p.endpoint ∧
      p.mtu = (u16TryFrom ((row.mtu.getD 1420).toInt)).getD 1420 := by
  obtain ⟨peerId, -, h⟩ := bind_ok h
  obtain ⟨asn, hasn, h⟩ := bind_ok h
  obtain ⟨pubkey, hkey, h⟩ := bind_ok h
  obtain ⟨localLlIp, hlocal, h⟩ := bind_ok h
  obtain ⟨remoteLlIp, hremote, h⟩ := bind_ok h
  obtain ⟨listenPort, hport, h⟩ := bind_ok h
  obtain rfl := Except.ok.inj h
  exact ⟨require_ok hasn, (tryFrom_ok hkey).1, require_ok hlocal, require_ok hremote, require_ok hport,
    rfl, rfl⟩

/-- The two decoders agree on everything but a number in the column `mtu` that does not fit. -/
lemma agrees_iff {row : TimedRow} (h : rowToPeer rd row.toRow = .ok p) :
    Agrees rd (peerInfo row) p ↔ Fits (row.mtu.getD 1420) := by
  obtain ⟨-, hkey, hlocal, hremote, hport, hend, hmtu⟩ := rowToPeer_ok h
  rw [← i32AsU16_eq_iff, ← hmtu]
  constructor
  · exact fun agrees => agrees.mtu
  · exact fun fits => ⟨u16TryFrom_eq hport, fits, hkey.symm, hend, hlocal, hremote⟩

lemma asn_of_decoded (h : rowToPeer rd row = .ok p) : row.asn = u32AsI64 p.asn := by
  have hasn := (rowToPeer_ok h).1
  unfold u32TryFrom at hasn
  split at hasn
  · rename_i hrange
    apply Int64.toInt_inj.mp
    rw [toInt_u32AsI64, ← Option.some.inj hasn, UInt32.toNat_ofNat']
    omega
  · cases hasn

/-- Every row of the AS is shown, and nothing else. -/
lemma mem_getPeerInfosByAsn {cfg : Config} {asn : UInt32} {rows : List TimedRow} {info : PeerInfo} :
    info ∈ getPeerInfosByAsn cfg asn rows ↔
      ∃ row ∈ rows, row.asn = u32AsI64 asn ∧ peerInfo row = info := by
  simp only [getPeerInfosByAsn, List.mem_map, List.mem_insertionSort, List.mem_filter,
    decide_eq_true_eq, and_assoc]

/-- The view shows what is applied exactly where the MTU fits, or truncates to the default. -/
theorem view_agrees (rd : Readers) (cfg : Config) {rows : List TimedRow} {row : TimedRow} {p : Peer}
    (hrow : row ∈ rows) (decoded : rowToPeer rd row.toRow = .ok p) :
    peerInfo row ∈ getPeerInfosByAsn cfg p.asn rows ∧
      (Agrees rd (peerInfo row) p ↔ Fits (row.mtu.getD 1420)) :=
  ⟨mem_getPeerInfosByAsn.mpr ⟨row, hrow, asn_of_decoded decoded, rfl⟩, agrees_iff decoded⟩

end Agreement

section Sample

/-- The readers, as they behave on the texts of this row. -/
def sampleReaders : Readers where
  decode _ := .ok (List.replicate 32 0)
  parse text := if text = "fe80::1" then some ⟨0xfe80, 0, 0, 0, 0, 0, 0, 1⟩ else none

def sampleRow (mtu : Int32) : TimedRow where
  peerId := 1
  asn := 4242421111
  peerName := "r1"
  ifaceName := "wgp1"
  pubkey := "AAAAAAAAAAAAAAAAAAAAAAAAAAAAAAAAAAAAAAAAAAA="
  endpoint := none
  localLlIp := "fe80::1"
  remoteLlIp := "fe80::1"
  status := "active"
  listenPort := 21111
  mtu := some mtu
  createdAt := none
  updatedAt := none

def samplePeer : Peer where
  peerId := 1
  peerName := "r1"
  ifaceName := "wgp1"
  asn := 4242421111
  pubkey := ⟨"AAAAAAAAAAAAAAAAAAAAAAAAAAAAAAAAAAAAAAAAAAA="⟩
  endpoint := none
  localLlIp := ⟨0xfe80, 0, 0, 0, 0, 0, 0, 1⟩
  remoteLlIp := ⟨0xfe80, 0, 0, 0, 0, 0, 0, 1⟩
  status := .active
  listenPort := 21111
  mtu := 1420

lemma sampleRow_decoded : rowToPeer sampleReaders (sampleRow 70000).toRow = .ok samplePeer := by
  decide +kernel

/-- A direct edit has set 70000: the interface gets 1420, the view shows 4464. -/
theorem view_shows_other_mtu :
    rowToPeer sampleReaders (sampleRow 70000).toRow = .ok samplePeer ∧
      (peerInfo (sampleRow 70000)).mtu = 4464 ∧
      ¬Agrees sampleReaders (peerInfo (sampleRow 70000)) samplePeer := by
  refine ⟨sampleRow_decoded, by decide +kernel, fun agrees => ?_⟩
  have hmtu := agrees.mtu
  revert hmtu
  decide +kernel

theorem view_agrees_sample :
    peerInfo (sampleRow 1380) ∈ getPeerInfosByAsn ⟨4242420000, fun a b => decide (a ≤ b)⟩ 4242421111
        [sampleRow 1380] ∧
      Agrees sampleReaders (peerInfo (sampleRow 1380)) { samplePeer with mtu := 1380 } := by
  have decoded : rowToPeer sampleReaders (sampleRow 1380).toRow = .ok { samplePeer with mtu := 1380 } := by
    decide +kernel
  obtain ⟨shown, agrees⟩ := view_agrees sampleReaders ⟨4242420000, fun a b => decide (a ≤ b)⟩
    (List.mem_singleton_self (sampleRow 1380)) decoded
  exact ⟨shown, agrees.mpr (by decide +kernel)⟩

end Sample

end Autopeer.StatusView
