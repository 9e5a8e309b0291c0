import Autopeer.ManagerRules

/-! The search for a listen port: it walks the range 20000 to 29999 once around, from the port that
belongs to the AS number, and takes the first port that neither the kernel nor the table holds. -/
namespace Autopeer.PortSearch
open Ipv6 PeerData ProgramTree ProgramRuns ManagerWorld ManagerPrograms ManagerEffects

variable {cfg : Config} {w : World} {asn : UInt32} {peerName : String}

section Walk

/-- The port that the walk visits after `k` steps. -/
def portAt (asn : UInt32) (k : ℕ) : ℕ := 20000 + (asn.toNat % 10000 + k) % 10000

/-- The sums of the search stay below the bounds of their types. -/
structure InBounds (asn : UInt32) (k : ℕ) : Prop where
  increment : (UInt32.ofNat k).toNat = k
  sum : (asn % 10000 + UInt32.ofNat k).toNat = (asn % 10000).toNat + (UInt32.ofNat k).toNat
  offset : ((asn % 10000 + UInt32.ofNat k) % 10000).toUInt16.toNat =
    ((asn % 10000 + UInt32.ofNat k) % 10000).toNat
  port : (searchPort asn k).toNat =
    20000 + ((asn % 10000 + UInt32.ofNat k) % 10000).toUInt16.toNat

lemma inBounds {k : ℕ} (hk : k < 10000) : InBounds asn k := by
  have increment : (UInt32.ofNat k).toNat = k := UInt32.toNat_ofNat_of_lt (by
    change k < 4294967296
    omega)
  have low : (asn % 10000).toNat < 10000 := by
    rw [UInt32.toNat_mod]
    exact Nat.mod_lt _ (by decide)
  have sum : (asn % 10000 + UInt32.ofNat k).toNat = (asn % 10000).toNat + (UInt32.ofNat k).toNat := by
    rw [UInt32.toNat_add, increment]
    omega
  have small : ((asn % 10000 + UInt32.ofNat k) % 10000).toNat < 10000 := by
    rw [UInt32.toNat_mod]
    exact Nat.mod_lt _ (by decide)
  have offset : ((asn % 10000 + UInt32.ofNat k) % 10000).toUInt16.toNat =
      ((asn % 10000 + UInt32.ofNat k) % 10000).toNat := by
    rw [UInt32.toNat_toUInt16]
    omega
  refine ⟨increment, sum, offset, ?_⟩
  rw [searchPort, UInt16.toNat_add, offset]
  simp only [UInt16.reduceToNat]
  omega

lemma searchPort_toNat {k : ℕ} (hk : k < 10000) : (searchPort asn k).toNat = portAt asn k := by
  have h := @inBounds asn _ hk
  rw [h.port, h.offset, UInt32.toNat_mod, h.sum, h.increment, UInt32.toNat_mod]
  rfl

/-- Once around, the walk visits every port of the range. -/
theorem portAt_surjective (asn : UInt32) {port : ℕ} (hl : 20000 ≤ port) (hh : port ≤ 29999) :
    ∃ k < 10000, portAt asn k = port := by
  refine ⟨(port - 20000 + 10000 - asn.toNat % 10000) % 10000, Nat.mod_lt _ (by decide), ?_⟩
  have low : asn.toNat % 10000 < 10000 := Nat.mod_lt _ (by decide)
  rw [portAt]
  omega

/-- It visits none twice. -/
theorem portAt_injective (asn : UInt32) {j k : ℕ} (hj : j < 10000) (hk : k < 10000)
    (h : portAt asn j = portAt asn k) : j = k := by
  have low : asn.toNat % 10000 < 10000 := Nat.mod_lt _ (by decide)
  simp only [portAt] at h
  omega

end Walk

section Search

/-- A kernel device listens on the port. -/
def InUse (w : World) (port : UInt16) : Prop := ∃ i ∈ w.ifaces, i.listenPort = some port

/-- Neither a kernel device nor a row holds the port. -/
def Free (w : World) (port : UInt16) : Prop := ¬InUse w port ∧ ∀ r ∈ w.peers, r.listenPort ≠ port

instance (w : World) (port : UInt16) : Decidable (InUse w port) :=
  inferInstanceAs (Decidable (∃ i ∈ w.ifaces, _))

instance (w : World) (port : UInt16) : Decidable (Free w port) :=
  inferInstanceAs (Decidable (_ ∧ ∀ r ∈ w.peers, _))

lemma inUse_eq {port : UInt16} : w.ifaces.any (·.listenPort = some port) = decide (InUse w port) := by
  rw [Bool.eq_iff_iff, decide_eq_true_iff]
  simp [InUse]

/-- The answer to a call that works. -/
def works (cfg : Config) : (e : Call) → World → Option (Answer e × World) := exec cfg .ok

lemma works_io {c : Io} {v : c.Value} {w' : World} (h : effect cfg c w = (.ok v, w')) :
    runWith (works cfg) (io c).run w = some (.ok v, w') := by
  change (works cfg (.io c) w).bind _ = _
  simp only [works, exec, h]
  rfl

variable {peerAt : UInt16 → Peer} {test : Bool} {ks : List ℕ}

/-- The peer that the search tries at each port. -/
structure Tries (asn : UInt32) (peerName : String) (peerId : UInt32) (peerAt : UInt16 → Peer) :
    Prop where
  pair : ∀ port, (peerAt port).pair = (asn, peerName)
  peerId : ∀ port, (peerAt port).peerId = peerId
  listenPort : ∀ port, (peerAt port).listenPort = port
  status : ∀ port, (peerAt port).status = .provisioning

/-- What the reservation of a peer leaves. -/
def reserved (test : Bool) (p : Peer) (w : World) : World :=
  if test then { w with nextEvent := w.nextEvent + 1 } else w.withTables (w.insertRow p)

lemma reserve_free {peerId : UInt32} (ht : Tries asn peerName peerId peerAt)
    (hpair : ∀ r ∈ w.peers, r.pair ≠ (asn, peerName)) (hid : ∀ r ∈ w.peers, r.peerId ≠ peerId)
    {port : UInt16} (hfree : Free w port) :
    effect cfg (.reservePeer (peerAt port) test) w = (.ok true, reserved test (peerAt port) w) := by
  have none : w.conflicts (peerAt port) = false := by
    rw [conflicts_false]
    intro r hr
    rw [ht.pair, ht.peerId, ht.listenPort]
    exact ⟨hid r hr, hpair r hr, hfree.2 r hr⟩
  have same : { peerAt port with status := .provisioning } = peerAt port := by
    rw [← ht.status port]
  rw [effect, none]
  cases test <;> simp [reserved, same]

lemma reserve_taken (h : w.conflicts (peerAt port) = true) :
    effect cfg (.reservePeer (peerAt port) test) w = (.ok false, w) := by
  rw [effect, h]
  rfl

lemma conflicts_of_pair {peerId : UInt32} (ht : Tries asn peerName peerId peerAt) {port : UInt16}
    (h : ∃ r ∈ w.peers, r.pair = (asn, peerName)) : w.conflicts (peerAt port) = true := by
  obtain ⟨r, hr, hp⟩ := h
  refine Bool.not_eq_false _ |>.mp fun hc => ?_
  exact (conflicts_false.mp hc r hr).2.1 (hp.trans (ht.pair port).symm)

lemma conflicts_of_port {peerId : UInt32} (ht : Tries asn peerName peerId peerAt) {port : UInt16}
    (h : ∃ r ∈ w.peers, r.listenPort = port) : w.conflicts (peerAt port) = true := by
  obtain ⟨r, hr, hp⟩ := h
  refine Bool.not_eq_false _ |>.mp fun hc => ?_
  exact (conflicts_false.mp hc r hr).2.2 (hp.trans (ht.listenPort port).symm)

def noPort : PeerError :=
  .validation "No WireGuard listen port is available from 20000 through 29999"

/-- One try at a port that is in use by a device, or held by a row. -/
lemma reserveFrom_skip {k : ℕ} (hpair : ∀ r ∈ w.peers, r.pair ≠ (asn, peerName))
    {peerId : UInt32} (ht : Tries asn peerName peerId peerAt) (h : ¬Free w (searchPort asn k)) :
    runWith (works cfg) (reserveFrom asn peerName test peerAt (k :: ks)).run w =
      runWith (works cfg) (reserveFrom asn peerName test peerAt ks).run w := by
  have used : runWith (works cfg) (io (.listenPortInUse (searchPort asn k))).run w =
      some (.ok (decide (InUse w (searchPort asn k))), w) := works_io (by rw [effect, inUse_eq])
  rw [reserveFrom, runWith_bind_ok used]
  by_cases hu : InUse w (searchPort asn k)
  · simp only [hu, decide_true, ↓reduceIte]
  · have taken : w.conflicts (peerAt (searchPort asn k)) = true := by
      refine conflicts_of_port ht ?_
      by_contra hn
      exact h ⟨hu, fun r hr hp => hn ⟨r, hr, hp⟩⟩
    have absent : w.rowOf? asn peerName = none := by
      refine List.find?_eq_none.mpr fun r hr => ?_
      have := hpair r hr
      simpa [Peer.pair] using this
    simp only [hu, decide_false, Bool.false_eq_true, ↓reduceIte]
    rw [runWith_bind_ok (works_io (reserve_taken taken))]
    have missing : effect cfg (.peerExists asn peerName) w = (.ok false, w) := by
      rw [effect, absent]
      rfl
    simp only [Bool.false_eq_true, ↓reduceIte]
    rw [runWith_bind_ok (works_io missing)]
    simp only [Bool.false_eq_true, ↓reduceIte]

/-- With no row for the pair the search ends at the first free port of the walk. -/
theorem reserveFrom_run {peerId : UInt32} (ht : Tries asn peerName peerId peerAt)
    (hpair : ∀ r ∈ w.peers, r.pair ≠ (asn, peerName)) (hid : ∀ r ∈ w.peers, r.peerId ≠ peerId) :
    runWith (works cfg) (reserveFrom asn peerName test peerAt ks).run w =
      some (match ks.find? fun k => Free w (searchPort asn k) with
        | some k => (.ok (peerAt (searchPort asn k)), reserved test (peerAt (searchPort asn k)) w)
        | none => (.error noPort, w)) := by
  induction ks with
  | nil => rfl
  | cons k ks ih =>
    by_cases hf : Free w (searchPort asn k)
    · have unused : effect cfg (.listenPortInUse (searchPort asn k)) w = (.ok false, w) := by
        rw [effect, inUse_eq, decide_eq_false hf.1]
      rw [reserveFrom, runWith_bind_ok (works_io unused), List.find?_cons_of_pos (by simpa using hf)]
      simp only [Bool.false_eq_true, ↓reduceIte]
      rw [runWith_bind_ok (works_io (reserve_free ht hpair hid hf))]
      rfl
    · rw [reserveFrom_skip hpair ht hf, ih, List.find?_cons_of_neg (by simpa using hf)]

/-- With a row for the pair it ends at the first port that no device uses. -/
theorem reserveFrom_exists {peerId : UInt32} (ht : Tries asn peerName peerId peerAt)
    (h : ∃ r ∈ w.peers, r.pair = (asn, peerName)) :
    runWith (works cfg) (reserveFrom asn peerName test peerAt ks).run w =
      some (match ks.find? fun k => ¬InUse w (searchPort asn k) with
        | some _ => (.error (.alreadyExists asn peerName), w)
        | none => (.error noPort, w)) := by
  induction ks with
  | nil => rfl
  | cons k ks ih =>
    have used : runWith (works cfg) (io (.listenPortInUse (searchPort asn k))).run w =
        some (.ok (decide (InUse w (searchPort asn k))), w) := works_io (by rw [effect, inUse_eq])
    rw [reserveFrom, runWith_bind_ok used]
    by_cases hu : InUse w (searchPort asn k)
    · rw [List.find?_cons_of_neg (by simpa using hu)]
      simp only [hu, decide_true, ↓reduceIte]
      exact ih
    · have found : effect cfg (.peerExists asn peerName) w = (.ok true, w) := by
        cases hr : w.rowOf? asn peerName with
        | some r =>
          rw [effect, hr]
          rfl
        | none =>
          obtain ⟨r, hm, hp⟩ := h
          exact absurd hp (rowOf?_none hr r hm)
      rw [List.find?_cons_of_pos (by simpa using hu)]
      simp only [hu, decide_false, Bool.false_eq_true, ↓reduceIte]
      rw [runWith_bind_ok (works_io (reserve_taken (conflicts_of_pair ht h)))]
      simp only [Bool.false_eq_true, ↓reduceIte]
      rw [runWith_bind_ok (works_io found)]
      rfl

end Search

section Reserve
variable {pubkey : WgPubKey} {endpoint : Option String} {linkLocal : Option (Ipv6Addr × Ipv6Addr)}
  {mtu : UInt16}

/-- What the search tries at each port. -/
def candidate (cfg : Config) (w : World) (asn : UInt32) (peerName : String) (pubkey : WgPubKey)
    (endpoint : Option String) (linkLocal : Option (Ipv6Addr × Ipv6Addr)) (mtu listenPort : UInt16) :
    Peer :=
  buildPeer (.ofNat w.peerSeq) asn peerName pubkey endpoint
    (linkLocal.getD (asnLinkLocal cfg.localAsn, asnLinkLocal asn)) listenPort mtu

def drawn (w : World) : World := { w with peerSeq := w.peerSeq + 1 }

lemma reservePeer_eq (hseq : w.peerSeq ≤ lastPeerId) :
    runWith (works cfg) (reservePeer cfg asn peerName pubkey endpoint linkLocal mtu).run w =
      runWith (works cfg) (reserveFrom asn peerName (asn = cfg.localAsn)
        (candidate cfg w asn peerName pubkey endpoint linkLocal mtu) (List.range 10000)).run
          (drawn w) := by
  have next : effect cfg .nextPeerId w = (.ok w.peerSeq, drawn w) := by
    rw [effect, if_pos hseq]
    rfl
  have allocate : runWith (works cfg) allocatePeerId.run w =
      some (.ok (.ofNat w.peerSeq), drawn w) := by
    have small : w.peerSeq < 2 ^ 32 := by
      simp only [lastPeerId] at hseq
      omega
    rw [allocatePeerId, runWith_bind_ok (works_io next)]
    simp only [small, ↓reduceIte]
    rfl
  rw [ManagerPrograms.reservePeer, runWith_bind_ok allocate]
  rfl

lemma candidate_tries : Tries asn peerName (.ofNat w.peerSeq)
    (candidate cfg w asn peerName pubkey endpoint linkLocal mtu) :=
  ⟨fun _ => rfl, fun _ => rfl, fun _ => rfl, fun _ => rfl⟩

lemma find_range {p : ℕ → Bool} {n : ℕ} : (∃ k, (List.range n).find? p = some k ∧ k < n ∧ p k ∧
    ∀ j < k, p j = false) ∨ ((List.range n).find? p = none ∧ ∀ k < n, p k = false) := by
  cases h : (List.range n).find? p with
  | some k =>
    obtain ⟨hp, hm, hmin⟩ := List.find?_range_eq_some.mp h
    exact .inl ⟨k, rfl, List.mem_range.mp hm, hp, fun j hj => by simpa using hmin j hj⟩
  | none =>
    refine .inr ⟨rfl, fun k hk => ?_⟩
    simpa using List.find?_eq_none.mp h k (List.mem_range.mpr hk)

/-- The port has a number of the range and is free. -/
def FreeInRange (w : World) (port : ℕ) : Prop :=
  20000 ≤ port ∧ port ≤ 29999 ∧ Free w (.ofNat port)

lemma freeInRange_portAt {k : ℕ} (hk : k < 10000) :
    FreeInRange w (portAt asn k) ↔ Free w (searchPort asn k) := by
  have same : UInt16.ofNat (portAt asn k) = searchPort asn k := by
    rw [← searchPort_toNat hk, UInt16.ofNat_toNat]
  have low : 20000 ≤ portAt asn k := by simp [portAt]
  have high : portAt asn k ≤ 29999 := by
    have : (asn.toNat % 10000 + k) % 10000 < 10000 := Nat.mod_lt _ (by decide)
    rw [portAt]
    omega
  simp [FreeInRange, same, low, high]

/-- The reservation takes the first free port in the cyclic order that starts at the port of the AS
number, and fails only if there is none or if the pair has a row. -/
theorem reservePeer_search (cfg : Config) (w : World) (asn : UInt32) (peerName : String)
    (pubkey : WgPubKey) (endpoint : Option String) (linkLocal : Option (Ipv6Addr × Ipv6Addr))
    (mtu : UInt16) (hseq : w.peerSeq ≤ lastPeerId) :
    ((∀ r ∈ w.peers, r.pair ≠ (asn, peerName)) →
      (∀ r ∈ w.peers, r.peerId ≠ UInt32.ofNat w.peerSeq) →
      ((∃ port, FreeInRange w port) → ∃ k < 10000, FreeInRange w (portAt asn k) ∧
        (∀ j < k, ¬FreeInRange w (portAt asn j)) ∧ ∃ peer w',
          runWith (works cfg) (ManagerPrograms.reservePeer cfg asn peerName pubkey endpoint linkLocal
            mtu).run w = some (.ok peer, w') ∧
          peer.listenPort.toNat = portAt asn k ∧
          w'.peers = if asn = cfg.localAsn then w.peers else w.peers ++ [peer]) ∧
      ((¬∃ port, FreeInRange w port) → ∃ w',
        runWith (works cfg) (ManagerPrograms.reservePeer cfg asn peerName pubkey endpoint linkLocal
          mtu).run w = some (.error noPort, w') ∧ w'.peers = w.peers)) ∧
    ((∃ r ∈ w.peers, r.pair = (asn, peerName)) →
      (∃ port, 20000 ≤ port ∧ port ≤ 29999 ∧ ¬InUse w (.ofNat port)) → ∃ w',
        runWith (works cfg) (ManagerPrograms.reservePeer cfg asn peerName pubkey endpoint linkLocal
          mtu).run w = some (.error (.alreadyExists asn peerName), w') ∧ w'.peers = w.peers) ∧
    ∀ k < 10000, InBounds asn k := by
  refine ⟨fun hpair hid => ?_, fun hrow hport => ?_, fun k hk => inBounds hk⟩
  · rw [reservePeer_eq hseq, reserveFrom_run (w := drawn w) candidate_tries hpair hid]
    rcases find_range (p := fun k => decide (Free (drawn w) (searchPort asn k))) (n := 10000) with
      ⟨k, hfind, hk, hfree, hmin⟩ | ⟨hfind, hnone⟩
    · have first : FreeInRange w (portAt asn k) :=
        (freeInRange_portAt hk).mpr (of_decide_eq_true hfree)
      rw [hfind]
      refine ⟨fun _ => ⟨k, hk, first, fun j hj hf => ?_, _, _, rfl, ?_, ?_⟩, fun hno => ?_⟩
      · exact of_decide_eq_false (hmin j hj) ((freeInRange_portAt (hj.trans hk)).mp hf)
      · exact searchPort_toNat hk
      · by_cases htest : asn = cfg.localAsn <;> simp [reserved, htest, drawn] <;> rfl
      · exact absurd ⟨_, first⟩ hno
    · rw [hfind]
      refine ⟨fun ⟨port, hf⟩ => ?_, fun _ => ⟨drawn w, rfl, rfl⟩⟩
      obtain ⟨k, hk, rfl⟩ := portAt_surjective asn hf.1 hf.2.1
      exact absurd ((freeInRange_portAt hk).mp hf) (of_decide_eq_false (hnone k hk))
  · rw [reservePeer_eq hseq, reserveFrom_exists (w := drawn w) candidate_tries hrow]
    rcases find_range (p := fun k => decide ¬InUse (drawn w) (searchPort asn k)) (n := 10000) with
      ⟨k, hfind, -, -, -⟩ | ⟨hfind, hnone⟩
    · rw [hfind]
      exact ⟨drawn w, rfl, rfl⟩
    · obtain ⟨port, hl, hh, hunused⟩ := hport
      obtain ⟨k, hk, rfl⟩ := portAt_surjective asn hl hh
      have same : UInt16.ofNat (portAt asn k) = searchPort asn k := by
        rw [← searchPort_toNat hk, UInt16.ofNat_toNat]
      rw [same] at hunused
      exact absurd hunused (of_decide_eq_false (hnone k hk))

/-- A table that holds the preferred port of the request, and a device on the next one. -/
def busyWorld : World :=
  { peers := [{ buildPeer 1 4242421111 "r1" ⟨"key"⟩ none
      (asnLinkLocal 4242420000, asnLinkLocal 4242421111) 29999 1420 with status := .active }]
    born := [], peerSeq := 2, events := [], nextEvent := 1, locks := []
    ifaces := [{ newLink "wg0" with listenPort := some 20000 }]
    nft := [], bird := ⟨some ∅, ∅⟩ }

/-- The walk wraps around to the second port of the range. -/
theorem reservePeer_search_busyWorld : ∃ peer w',
    runWith (works ⟨4242420000, fun a b => decide (a ≤ b)⟩) (ManagerPrograms.reservePeer
      ⟨4242420000, fun a b => decide (a ≤ b)⟩ 4242429999 "r2" ⟨"key"⟩ none none 1420).run busyWorld =
        some (.ok peer, w') ∧ peer.listenPort.toNat = 20001 ∧ w'.peers.length = 2 := by
  obtain ⟨hfound, -, -⟩ := reservePeer_search ⟨4242420000, fun a b => decide (a ≤ b)⟩ busyWorld
    4242429999 "r2" ⟨"key"⟩ none none 1420 (by decide)
  obtain ⟨k, hk, hfree, hmin, peer, w', hrun, hport, hpeers⟩ :=
    (hfound (by decide) (by decide)).1 ⟨20001, by decide, by decide, by decide⟩
  have first : k = 2 := by
    rcases Nat.lt_trichotomy k 2 with h | h | h
    · refine absurd hfree ?_
      interval_cases k <;> exact fun hf => absurd hf.2.2 (by decide)
    · exact h
    · exact absurd ⟨by decide, by decide, by decide⟩ (hmin 2 h)
  refine ⟨peer, w', hrun, by rw [hport, first]; rfl, ?_⟩
  rw [hpeers]
  rfl

end Reserve

end Autopeer.PortSearch
