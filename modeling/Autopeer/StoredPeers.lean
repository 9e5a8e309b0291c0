import Autopeer.PeerRows
import Autopeer.Ipv6Text
import Autopeer.WireguardKeys

/-! A peer that was stored reads back unchanged, whichever statements wrote its row, and the
table of rows behaves as the table of peers. -/
namespace Autopeer.StoredPeers
open PeerData Ipv6 ManagerWorld PeerRows

variable {rd : Readers} {p q : Peer} {r : Row}

/-- The peers that reach the writers: the sequence has given the id, and the key was checked. -/
structure Storable (rd : Readers) (p : Peer) : Prop where
  drawn : p.peerId.toNat ≤ lastPeerId
  pubkey : WgPubKey.tryFrom rd.decode p.pubkey.text = .ok p.pubkey

/-- The statuses that the service writes. -/
def Usual (status : PeerStatus) : Prop :=
  status = .provisioning ∨ status = .active ∨ status = .deleting ∨ status = .disabled

/-- The row was inserted for the peer, or updated or set to a status since. -/
inductive Written (rd : Readers) : Row → Peer → Prop
  | reserved {p : Peer} (stored : Storable rd p) :
    Written rd (reserveRow p) { p with status := .provisioning }
  | updated {r : Row} {old p : Peer} (before : Written rd r old) (stored : Storable rd p)
      (id : p.peerId = old.peerId) (asn : p.asn = old.asn) (name : p.peerName = old.peerName) :
    Written rd (updateRow p r) { p with status := .provisioning }
  | set {r : Row} {p : Peer} {status : PeerStatus} (before : Written rd r p)
      (usual : Usual status) : Written rd (statusRow status r) { p with status := status }

/-- Every column of a row that was written for a peer. -/
def columns (p : Peer) : Row := { reserveRow p with status := statusToStr p.status }

lemma Usual.stored {status : PeerStatus} (h : Usual status) : status.stored = status := by
  rcases h with rfl | rfl | rfl | rfl <;> decide

lemma Storable.withStatus (h : Storable rd p) (status : PeerStatus) :
    Storable rd { p with status := status } := ⟨h.drawn, h.pubkey⟩

lemma reserveRow_columns : reserveRow p = columns { p with status := .provisioning } := rfl

lemma updateRow_columns (id : p.peerId = q.peerId) (asn : p.asn = q.asn)
    (name : p.peerName = q.peerName) :
    updateRow p (columns q) = columns { p with status := .provisioning } := by
  simp only [updateRow, columns, reserveRow, id, asn, name]
  rfl

lemma statusRow_columns {status : PeerStatus} :
    statusRow status (columns p) = columns { p with status := status } := rfl

lemma statusToStr_stored (status : PeerStatus) : statusToStr status.stored = statusToStr status := by
  cases status with
  | error detail =>
    have : statusToStr (strToStatus "error") = "error" := by decide
    exact this
  | _ => decide

/-- The row carries the columns of its peer, and nothing else. -/
theorem Written.columns (h : Written rd r p) :
    r = columns p ∧ Storable rd p ∧ Usual p.status := by
  induction h with
  | reserved stored => exact ⟨reserveRow_columns, stored.withStatus _, .inl rfl⟩
  | updated before stored id asn name ih =>
    obtain ⟨rfl, -, -⟩ := ih
    exact ⟨updateRow_columns id asn name, stored.withStatus _, .inl rfl⟩
  | set before usual ih =>
    obtain ⟨rfl, stored, -⟩ := ih
    exact ⟨statusRow_columns, stored.withStatus _, usual⟩

section ReadBack
variable (hparse : ∀ a : Ipv6Addr, rd.parse a.display = some a)
include hparse

/-- A row with the columns of a peer reads as this peer; only an error status loses its text. -/
theorem rowToPeer_columns (h : Storable rd p) :
    rowToPeer rd (columns p) = .ok { p with status := p.status.stored } := by
  have hid : u32TryFrom (u32AsI32 p.peerId).toInt = some p.peerId := by
    have hdrawn := h.drawn
    rw [toInt_u32AsI32 (by unfold lastPeerId at hdrawn; omega), u32TryFrom_toNat]
  have hasn : u32TryFrom (u32AsI64 p.asn).toInt = some p.asn := by
    rw [toInt_u32AsI64, u32TryFrom_toNat]
  have hport : u16TryFrom (u16AsI32 p.listenPort).toInt = some p.listenPort := by
    rw [toInt_u16AsI32, u16TryFrom_toNat]
  have hmtu : u16TryFrom (u16AsI32 p.mtu).toInt = some p.mtu := by
    rw [toInt_u16AsI32, u16TryFrom_toNat]
  simp only [rowToPeer, columns, reserveRow, hid, hasn, h.pubkey, hparse, hport, require,
    Option.getD_some, hmtu]
  rfl

theorem Written.rowToPeer (h : Written rd r p) : rowToPeer rd r = .ok p := by
  obtain ⟨rfl, stored, usual⟩ := h.columns
  rw [rowToPeer_columns hparse stored, usual.stored]

/-- The list fails as a whole if one row fails, so every row has to read back. -/
lemma mapM_written {rows : List Row} (h : ∀ r ∈ rows, ∃ p, Written rd r p) :
    ∃ peers, rows.mapM (PeerRows.rowToPeer rd) = .ok peers ∧
      List.Forall₂ (Written rd) rows peers := by
  induction rows with
  | nil => exact ⟨[], rfl, .nil⟩
  | cons r rows ih =>
    rw [List.forall_mem_cons] at h
    obtain ⟨⟨p, hp⟩, hrows⟩ := h
    obtain ⟨peers, hpeers, hall⟩ := ih hrows
    refine ⟨p :: peers, ?_, .cons hp hall⟩
    rw [List.mapM_cons, hp.rowToPeer hparse, hpeers]
    rfl

theorem listPeers_written (cfg : Config) {rows : List Row} (h : ∀ r ∈ rows, ∃ p, Written rd r p) :
    ∃ sorted peers, listPeers rd cfg rows = .ok peers ∧ sorted.Perm rows ∧
      List.Forall₂ (Written rd) sorted peers := by
  have hperm := List.perm_insertionSort (rowOrder cfg) rows
  have hsorted : ∀ r ∈ rows.insertionSort (rowOrder cfg), ∃ p, Written rd r p := by
    intro r hr
    exact h r (hperm.mem_iff.mp hr)
  obtain ⟨peers, hpeers, hall⟩ := mapM_written hparse hsorted
  exact ⟨_, peers, hpeers, hperm, hall⟩

/-- A row that the service wrote decodes to the peer that it was written for, after any sequence of
writes, and a table of such rows lists one peer for each row. -/
theorem stored_peers_read_back :
    (∀ p, Storable rd p →
      PeerRows.rowToPeer rd (reserveRow p) = .ok { p with status := .provisioning }) ∧
    (∀ r old p, Written rd r old → Storable rd p → p.peerId = old.peerId → p.asn = old.asn →
      p.peerName = old.peerName →
      PeerRows.rowToPeer rd (updateRow p r) = .ok { p with status := .provisioning }) ∧
    (∀ r p status, Written rd r p → Usual status →
      PeerRows.rowToPeer rd (statusRow status r) = .ok { p with status := status }) ∧
    ∀ cfg rows, (∀ r ∈ rows, ∃ p, Written rd r p) →
      ∃ sorted peers, listPeers rd cfg rows = .ok peers ∧ peers.length = rows.length ∧
        sorted.Perm rows ∧ List.Forall₂ (Written rd) sorted peers := by
  refine ⟨fun p stored => (Written.reserved stored).rowToPeer hparse,
    fun r old p before stored id asn name =>
      (before.updated stored id asn name).rowToPeer hparse,
    fun r p status before usual => (before.set usual).rowToPeer hparse, fun cfg rows h => ?_⟩
  obtain ⟨sorted, peers, hlist, hperm, hall⟩ := listPeers_written hparse cfg h
  exact ⟨sorted, peers, hlist, hall.length_eq.symm.trans hperm.length_eq, hperm, hall⟩

end ReadBack

section Sample

/-- The canonical decoder, and the parser that undoes the printing of addresses. -/
noncomputable def exactReaders : Readers where
  decode := WireguardKeys.standardDecode
  parse := Function.partialInv Ipv6Addr.display

def samplePeer : Peer where
  peerId := 2147483647
  peerName := "router"
  ifaceName := "wgp2147483647"
  asn := 4294967295
  pubkey := ⟨"AAAAAAAAAAAAAAAAAAAAAAAAAAAAAAAAAAAAAAAAAAA="⟩
  endpoint := none
  localLlIp := ⟨0xfe80, 0, 0, 0, 0, 0, 0, 1⟩
  remoteLlIp := ⟨0, 0, 0, 0, 0, 0xffff, 0xc0a8, 1⟩
  status := .provisioning
  listenPort := 65535
  mtu := 1420

/-- The database compares texts by their code points. -/
def localOrder : Config := ⟨4242420000, fun a b => decide (a ≤ b)⟩

/-- A second session of the AS. -/
def backupPeer : Peer :=
  { samplePeer with peerId := 7, peerName := "backup", ifaceName := "wgp7", listenPort := 20001 }

lemma samplePubkey_accepted :
    WgPubKey.tryFrom exactReaders.decode samplePeer.pubkey.text = .ok samplePeer.pubkey := by
  have haccepted : WgPubKey.tryFrom WireguardKeys.standardDecode samplePeer.pubkey.text =
      .ok samplePeer.pubkey := by decide +kernel
  exact haccepted

lemma samplePeer_storable : Storable exactReaders samplePeer :=
  ⟨by decide, samplePubkey_accepted⟩

lemma backupPeer_storable : Storable exactReaders backupPeer :=
  ⟨by decide, samplePubkey_accepted⟩

/-- One row written three times and one written once; the list has both peers as they were written. -/
theorem stored_peers_read_back_sample :
    rowToPeer exactReaders (reserveRow samplePeer) = .ok samplePeer ∧
      rowToPeer exactReaders (updateRow samplePeer (reserveRow samplePeer)) = .ok samplePeer ∧
      rowToPeer exactReaders (statusRow .active (reserveRow samplePeer)) =
        .ok { samplePeer with status := .active } ∧
      ∃ peers, listPeers exactReaders localOrder
        [statusRow .active (updateRow samplePeer (reserveRow samplePeer)), reserveRow backupPeer] =
          .ok peers ∧ peers.Perm [{ samplePeer with status := .active }, backupPeer] := by
  have parses := Function.partialInv_left Ipv6Text.display_injective
  obtain ⟨reserved, updated, set, lists⟩ := @stored_peers_read_back exactReaders parses
  have first : Written exactReaders (statusRow .active (updateRow samplePeer (reserveRow samplePeer)))
      { samplePeer with status := .active } :=
    .set (.updated (.reserved samplePeer_storable) samplePeer_storable rfl rfl rfl) (.inr (.inl rfl))
  have second : Written exactReaders (reserveRow backupPeer) backupPeer := .reserved backupPeer_storable
  refine ⟨reserved _ samplePeer_storable,
    updated _ _ _ (.reserved samplePeer_storable) samplePeer_storable rfl rfl rfl,
    set _ _ _ (.reserved samplePeer_storable) (.inr (.inl rfl)), ?_⟩
  obtain ⟨sorted, peers, hlist, -, hperm, hall⟩ := lists localOrder
    [statusRow .active (updateRow samplePeer (reserveRow samplePeer)), reserveRow backupPeer]
    (by simpa using ⟨⟨_, first⟩, _, second⟩)
  obtain ⟨inOrder, hrows, same⟩ := List.perm_comp_forall₂ hperm.symm hall
  obtain ⟨p, q, hp, hq, rfl⟩ : ∃ p q, Written exactReaders _ p ∧ Written exactReaders _ q ∧
      inOrder = [p, q] := by
    cases hrows with
    | cons hp rest =>
      cases rest with
      | cons hq rest =>
        cases rest
        exact ⟨_, _, hp, hq, rfl⟩
  cases (hp.rowToPeer parses).symm.trans (first.rowToPeer parses)
  cases (hq.rowToPeer parses).symm.trans (second.rowToPeer parses)
  exact ⟨peers, hlist, same.symm⟩

end Sample

/-! The table of rows and the table of peers answer alike. -/
section Tables
variable {rows : List Row} {cfg : Config} {w : World}

structure Holds (rd : Readers) (rows : List Row) (t : Tables) : Prop where
  rows : rows = t.peers.map columns
  storable : ∀ p ∈ t.peers, Storable rd p
  stored : ∀ p ∈ t.peers, p.status.stored = p.status

lemma sameKey_columns : (columns q).sameKey (reserveRow p) = true ↔ q.peerId = p.peerId ∨
    (q.asn = p.asn ∧ q.peerName = p.peerName) ∨ q.listenPort = p.listenPort := by
  simp only [Row.sameKey, Bool.or_eq_true, Bool.and_eq_true, decide_eq_true_eq, or_assoc]
  simp only [columns, reserveRow, u32AsI32_injective.eq_iff, u32AsI64_injective.eq_iff,
    u16AsI32_injective.eq_iff]

lemma any_sameKey (t : Tables) :
    (t.peers.map columns).any (·.sameKey (reserveRow p)) = t.conflicts p := by
  rw [List.any_map, Tables.conflicts]
  congr 1
  funext q
  rw [Bool.eq_iff_iff, Function.comp_apply, sameKey_columns]
  simp only [Bool.or_eq_true, Bool.and_eq_true, decide_eq_true_eq, or_assoc]

lemma named_columns {peerId : UInt32} :
    (columns q).peerId = u32AsI32 peerId ↔ q.peerId = peerId := u32AsI32_injective.eq_iff

lemma any_named (t : Tables) (peerId : UInt32) :
    (t.peers.map columns).any (fun row => row.peerId = u32AsI32 peerId) =
      (t.row? peerId).isSome := by
  rw [List.any_map, Bool.eq_iff_iff, List.any_eq_true, Tables.row?, List.find?_isSome]
  simp only [Function.comp_apply, decide_eq_true_eq, named_columns]

/-- An update of the rows with an id is the update of the peers with it. -/
lemma updateRow_peers (t : Tables) (peerId : UInt32) {f : Peer → Peer} {g : Row → Row}
    (h : ∀ q, g (columns q) = columns (f q)) :
    ((t.peers.map columns).map fun row => if row.peerId = u32AsI32 peerId then g row else row) =
      (t.updateRow peerId f).2.peers.map columns := by
  have all : ((t.peers.map columns).map fun row =>
      if row.peerId = u32AsI32 peerId then g row else row) =
      (t.replaceRow peerId f).peers.map columns := by
    simp only [Tables.replaceRow, List.map_map]
    refine List.map_congr_left fun q _ => ?_
    simp only [Function.comp_apply, named_columns]
    split
    · exact h q
    · rfl
  cases hr : t.row? peerId with
  | some r =>
    simp only [Tables.updateRow, hr]
    exact all
  | none =>
    simp only [Tables.updateRow, hr]
    rw [all]
    congr 1
    have absent := List.find?_eq_none.mp hr
    simp only [Tables.replaceRow]
    conv_rhs => rw [← List.map_id t.peers]
    refine List.map_congr_left fun q hq => ?_
    have hne : q.peerId ≠ peerId := by simpa using absent q hq
    rw [if_neg hne]
    rfl

lemma updateRow_fst (t : Tables) (peerId : UInt32) (f : Peer → Peer) :
    (t.updateRow peerId f).1 = (t.row? peerId).isSome := by
  unfold Tables.updateRow
  cases t.row? peerId <;> rfl

lemma mem_updateRow {t : Tables} {peerId : UInt32} {f : Peer → Peer}
    (hq : q ∈ (t.updateRow peerId f).2.peers) : q ∈ t.peers ∨ ∃ r ∈ t.peers, q = f r := by
  unfold Tables.updateRow at hq
  cases hr : t.row? peerId with
  | none =>
    rw [hr] at hq
    exact .inl hq
  | some r =>
    rw [hr] at hq
    simp only [Tables.enqueue, Tables.replaceRow, List.mem_map] at hq
    obtain ⟨a, ha, rfl⟩ := hq
    split
    · exact .inr ⟨a, ha, rfl⟩
    · exact .inl ha

theorem reservePeer_holds (h : Holds rd rows w.toTables) (stored : Storable rd p) (test : Bool) :
    (effect cfg (.reservePeer p test) w).1 = .ok (reservePeer p test rows).1 ∧
      Holds rd (reservePeer p test rows).2 (effect cfg (.reservePeer p test) w).2.toTables := by
  obtain ⟨rfl, storable, status⟩ := h
  rw [reservePeer, any_sameKey, effect]
  by_cases hc : w.conflicts p
  · rw [if_pos hc, if_pos hc]
    exact ⟨rfl, rfl, storable, status⟩
  · rw [if_neg hc, if_neg hc]
    by_cases ht : test
    · rw [if_pos ht, if_pos ht]
      exact ⟨rfl, rfl, storable, status⟩
    · rw [if_neg ht, if_neg ht]
      refine ⟨rfl, ?_, ?_, ?_⟩
      · simp [World.withTables, Tables.insertRow, Tables.enqueue, reserveRow_columns]
      · intro q hq
        simp only [World.withTables, Tables.insertRow, Tables.enqueue, List.mem_append,
          List.mem_singleton] at hq
        rcases hq with hq | rfl
        · exact storable q hq
        · exact stored.withStatus _
      · intro q hq
        simp only [World.withTables, Tables.insertRow, Tables.enqueue, List.mem_append,
          List.mem_singleton] at hq
        rcases hq with hq | rfl
        · exact status q hq
        · exact stored_provisioning

/-- What the two statements that update a row share. -/
lemma Holds.updateRow {t : Tables} (h : Holds rd rows t) (peerId : UInt32) {f : Peer → Peer}
    {g : Row → Row} (hcolumns : ∀ q, g (columns q) = columns (f q))
    (hstorable : ∀ q, Storable rd q → Storable rd (f q)) (hstored : ∀ q, (f q).status.stored =
      (f q).status) :
    rows.any (fun row => row.peerId = u32AsI32 peerId) = (t.updateRow peerId f).1 ∧
      Holds rd (rows.map fun row => if row.peerId = u32AsI32 peerId then g row else row)
        (t.updateRow peerId f).2 := by
  obtain ⟨rfl, storable, status⟩ := h
  refine ⟨by rw [any_named, updateRow_fst], updateRow_peers t peerId hcolumns, ?_, ?_⟩
  · intro q hq
    rcases mem_updateRow hq with hq | ⟨r, hr, rfl⟩
    · exact storable q hq
    · exact hstorable r (storable r hr)
  · intro q hq
    rcases mem_updateRow hq with hq | ⟨r, hr, rfl⟩
    · exact status q hq
    · exact hstored r

theorem setStatus_holds (h : Holds rd rows w.toTables) (peerId : UInt32) (status : PeerStatus) :
    (effect cfg (.setStatus peerId status) w).1 = .ok (setStatus peerId status rows).1 ∧
      Holds rd (setStatus peerId status rows).2
        (effect cfg (.setStatus peerId status) w).2.toTables := by
  have hcolumns : ∀ q, statusRow status (columns q) =
      columns { q with status := status.stored } := by
    intro q
    rw [statusRow_columns]
    simp only [columns, reserveRow, statusToStr_stored]
  have hstored : status.stored.stored = status.stored := congrArg strToStatus (statusToStr_stored _)
  obtain ⟨hfst, hholds⟩ := h.updateRow peerId hcolumns (fun q hq => hq.withStatus _)
    (fun _ => hstored)
  refine ⟨?_, ?_⟩
  · simp only [effect, setStatus, ← hfst]
  · simpa only [effect, setStatus, World.withTables, decide_eq_true_eq] using hholds

theorem updatePeerDesired_holds (h : Holds rd rows w.toTables) (stored : Storable rd p) :
    (effect cfg (.updatePeerDesired p) w).1 = (updatePeerDesired p rows).1 ∧
      Holds rd (updatePeerDesired p rows).2 (effect cfg (.updatePeerDesired p) w).2.toTables := by
  have hcolumns : ∀ q, PeerRows.updateRow p (columns q) = columns (desiredColumns p q) :=
    fun q => rfl
  obtain ⟨hfst, hholds⟩ := h.updateRow p.peerId hcolumns (fun q hq => ⟨hq.drawn, stored.pubkey⟩)
    (fun _ => stored_provisioning)
  have htaken : (rows.any (fun row => row.peerId = u32AsI32 p.peerId) &&
      rows.any fun row => !decide (row.peerId = u32AsI32 p.peerId) &&
        row.listenPort = u16AsI32 p.listenPort) =
      ((w.row? p.peerId).isSome &&
        w.peers.any fun r => r.peerId ≠ p.peerId && r.listenPort = p.listenPort) := by
    rw [h.rows, any_named, List.any_map]
    congr 2
    funext q
    simp [columns, reserveRow, u32AsI32_injective.eq_iff, u16AsI32_injective.eq_iff]
  simp only [effect, updatePeerDesired, htaken]
  split
  · exact ⟨rfl, h⟩
  · refine ⟨by rw [hfst], ?_⟩
    simpa only [World.withTables, decide_eq_true_eq] using hholds

theorem deletePeer_holds (h : Holds rd rows w.toTables) (peerId : UInt32) :
    (effect cfg (.deletePeer peerId) w).1 = .ok (deletePeer peerId rows).1 ∧
      Holds rd (deletePeer peerId rows).2 (effect cfg (.deletePeer peerId) w).2.toTables := by
  obtain ⟨rfl, storable, status⟩ := h
  have hall : ((w.peers.map columns).filter fun row => !decide (row.peerId = u32AsI32 peerId)) =
      (w.peers.filter fun q => q.peerId ≠ peerId).map columns := by
    rw [List.filter_map]
    congr 1
    refine List.filter_congr fun q _ => ?_
    simp [columns, reserveRow, u32AsI32_injective.eq_iff]
  simp only [effect, deletePeer, any_named, hall, Tables.deleteRow]
  cases hr : w.row? peerId with
  | some r =>
    refine ⟨rfl, rfl, ?_, ?_⟩
    · exact fun q hq => storable q (List.mem_filter.mp hq).1
    · exact fun q hq => status q (List.mem_filter.mp hq).1
  | none =>
    have absent := List.find?_eq_none.mp hr
    have hkeep : (w.peers.filter fun q => q.peerId ≠ peerId) = w.peers := by
      refine List.filter_eq_self.mpr fun q hq => ?_
      simpa using absent q hq
    rw [hkeep]
    exact ⟨rfl, rfl, storable, status⟩

/-- The rows in their order read as the peers in theirs. -/
theorem listPeers_holds (hparse : ∀ a : Ipv6Addr, rd.parse a.display = some a)
    (h : Holds rd rows w.toTables) :
    (effect cfg .listPeers w).1 = listPeers rd cfg rows := by
  obtain ⟨rfl, storable, status⟩ := h
  have hsort : (w.peers.map columns).insertionSort (rowOrder cfg) =
      (w.listPeers cfg).map columns := by
    refine (List.map_insertionSort _ _ _ _ fun a _ b _ => ?_).symm
    simp only [rowLe, rowOrder, columns, reserveRow, toInt_u32AsI64, Nat.cast_lt, Nat.cast_inj,
      UInt32.toNat_inj, UInt32.lt_iff_toNat_lt]
  have hread : ∀ peers : List Peer, (∀ q ∈ peers, q ∈ w.peers) →
      (peers.map columns).mapM (rowToPeer rd) = .ok peers := by
    intro peers hpeers
    induction peers with
    | nil => rfl
    | cons q peers ih =>
      rw [List.forall_mem_cons] at hpeers
      have hq := rowToPeer_columns hparse (storable q hpeers.1)
      rw [status q hpeers.1] at hq
      rw [List.map_cons, List.mapM_cons, hq, ih hpeers.2]
      rfl
  have hmem : ∀ q ∈ w.listPeers cfg, q ∈ w.peers := fun q hq => (List.mem_insertionSort _).mp hq
  rw [listPeers, hsort, hread _ hmem]
  rfl

end Tables

end Autopeer.StoredPeers
