import Autopeer.ChangeDelivery
import Autopeer.TableInvariant

/-! Shared state that tasks overwrite from snapshots of the table. A late write of an old snapshot does
no harm while the writer still has an event of its own in the queue: the listener cannot come to that
event before the writer has released its pair. -/
namespace Autopeer.SnapshotWriters
open PeerData ProgramTree ProgramPool TransitionRuns
open ManagerWorld ManagerPrograms ManagerSystem ManagerFootprints ManagerEffects ManagerRules
open TableIdentity TableDiscipline TableInvariant ChangeDelivery

variable {cfg : Config} {X α : Type}

/-- A part of the world that calls overwrite whole, with what a peers list asks of it. -/
structure Outlet (cfg : Config) (X : Type) where
  shown : World → X
  wanted : List Peer → X
  /-- The value that the call installs, if it is a call on this part. -/
  writes : Io → Option X
  /-- BIRD is written by the sync of its files, the firewall by the batch. -/
  onBird : Bool
  writes_nft : ∀ peers,
    writes (.runNftBatch (nftPorts peers)) = if onBird then none else some (wanted peers)
  writes_bird : ∀ peers force,
    writes (.syncBirdFiles peers force) = if onBird then some (wanted peers) else none
  writes_other : ∀ c, (∀ ports, c ≠ .runNftBatch ports) → (∀ peers force, c ≠ .syncBirdFiles peers force) →
    writes c = none
  wanted_listed : ∀ t : Tables, Identified t → wanted (t.listPeers cfg) = wanted t.peers
  /-- Only the calls that write the part move it. -/
  shown_frame : ∀ o (e : Call) a w w', exec cfg o e w = some (a, w') →
    (∀ c, e = .io c → writes c = none) → shown w' = shown w
  /-- A write that works shows the value. -/
  shown_write : ∀ o c v w w' x, exec cfg o (.io c) w = some (.ok v, w') → writes c = some x →
    shown w' = x
  /-- A batch that fails may have been applied, and does nothing else. -/
  shown_batch : ∀ o ports a w w' x, exec cfg o (.io (.runNftBatch ports)) w = some (a, w') →
    writes (.runNftBatch ports) = some x → shown w' = shown w ∨ shown w' = x
  /-- Nothing else than calls moves the part. -/
  shown_tables : ∀ w t, shown (w.withTables t) = shown w
  shown_locks : ∀ w locks, shown { w with locks } = shown w

variable (U : Outlet cfg X)

section Turns

/-- How far a pass has come with the event it works on. -/
inductive Phase
  | idle
  /-- It has this snapshot and may still write it. -/
  | listed (peers : List Peer)
  | written

/-- What a task was started for, the pair whose lock it has, the row of the pair, whether a change of
its own to the pair is in the queue, and the events it still has to work on. -/
structure Turn where
  op : Op
  pair : Option Pair
  row : Option UInt32
  owes : Bool
  changes : List PeerChange
  phase : Phase

def Turn.start (op : Op) : Turn := ⟨op, none, none, false, [], .idle⟩

def Turn.released (m : Turn) : Turn :=
  match m.phase with
  | .written => { m with pair := none, row := none, owes := false }
  | _ => { m with pair := none, row := none, owes := false, changes := m.changes.tail, phase := .idle }

def Turn.lists (m : Turn) (peers : List Peer) : Turn :=
  match m.op, m.phase with
  | .syncPendingPeerChanges, .written => m
  | .syncPendingPeerChanges, _ => { m with phase := .listed peers }
  | _, _ => m

def Turn.wrote (m : Turn) : Turn :=
  match m.phase with
  | .listed _ => { m with phase := .written }
  | _ => m

/-- A step of the pass went wrong, so the event will stay. -/
def Turn.failed (m : Turn) : Turn :=
  match m.phase with
  | .written => { m with phase := .idle }
  | _ => m

/-- A request may write any list while it owes an event, and the listener the one it has taken for the
event it works on. -/
def mayWrite (m : Turn) (x : X) : Prop :=
  m.owes = true ∨ ∃ peers, m.phase = .listed peers ∧ x = U.wanted peers

def turnAllowed (m : Turn) : Call → Prop
  | .lock (.peer asn peerName) => m.pair = none ∧ m.phase = .idle ∧
    (m.op = .syncPendingPeerChanges → ∃ c rest, m.changes = c :: rest ∧ c.peer.pair = (asn, peerName))
  | .unlock (.peer asn peerName) => m.pair = some (asn, peerName)
  | .io (.getPeer asn peerName) =>
    m.pair = some (asn, peerName) ∧ m.op ≠ .syncPendingPeerChanges
  | .io (.reservePeer p _) => m.pair = some p.pair ∧ m.op ≠ .syncPendingPeerChanges
  | .io .listPeers => m.op = .syncPendingPeerChanges → m.pair.isSome
  | .io .listPeerChanges => m.op = .syncPendingPeerChanges ∧ m.pair = none ∧ m.phase = .idle
  | .io (.deletePeerChange eventId) => m.pair = none ∧ m.phase = .written ∧
    ∃ c rest, m.changes = c :: rest ∧ c.eventId = eventId
  | .io (.runNftBatch ports) =>
    ∀ x, U.writes (.runNftBatch ports) = some x → m.op = .syncNftPorts ∨ mayWrite U m x
  | .io (.syncBirdFiles peers force) =>
    ∀ x, U.writes (.syncBirdFiles peers force) = some x → mayWrite U m x
  | _ => True

def turnNext (m : Turn) : (e : Call) → Answer e → Turn
  | .lock (.peer asn peerName), _ => { m with pair := some (asn, peerName) }
  | .unlock (.peer ..), _ => m.released
  | .io (.getPeer ..), .ok (some p) => { m with row := some p.peerId }
  | .io (.reservePeer _ false), .ok true => { m with owes := true }
  | .io (.updatePeerDesired q), .ok true => { m with owes := m.owes || m.row = some q.peerId }
  | .io (.setStatus peerId _), .ok true => { m with owes := m.owes || m.row = some peerId }
  | .io (.setStatus ..), .ok false => m.failed
  | .io (.deletePeer _), .ok false => m.failed
  | .io .listPeerChanges, .ok changes => { m with changes }
  | .io .listPeers, .ok peers => m.lists peers
  | .io (.deletePeerChange _), _ => { m with changes := m.changes.tail, phase := .idle }
  | .io (.runNftBatch ports), .ok _ =>
    if (U.writes (.runNftBatch ports)).isSome then m.wrote else m
  | .io (.syncBirdFiles peers force), .ok _ =>
    if (U.writes (.syncBirdFiles peers force)).isSome then m.wrote else m
  | .io _, .error _ => m.failed
  | _, _ => m

def turns : Discipline Call Answer Turn :=
  ⟨.start .recover, turnAllowed U, fun _ _ _ => True, turnNext U⟩

variable {U} {m : Turn} {peers : List Peer} {op : Op} {asn : UInt32} {peerName : String}
  {p : Peer} {W : Peer → Prop} {e : Call}

lemma lists_of_ne (h : m.op ≠ .syncPendingPeerChanges) : m.lists peers = m := by
  unfold Turn.lists
  split <;> first | rfl | exact absurd ‹_› h

lemma lists_of_listener (hop : m.op = .syncPendingPeerChanges) (hp : m.phase ≠ .written) :
    m.lists peers = { m with phase := .listed peers } := by
  unfold Turn.lists
  split
  · exact absurd ‹_› hp
  · rfl
  · rename_i hne _
    exact absurd hop hne

lemma wrote_of_idle (h : m.phase = .idle) : m.wrote = m := by rw [Turn.wrote, h]

lemma failed_of_idle (h : m.phase = .idle) : m.failed = m := by rw [Turn.failed, h]

/-- A request holds the lock of its pair. -/
structure Holding (op : Op) (asn : UInt32) (peerName : String) (m : Turn) : Prop where
  op_eq : m.op = op
  pair : m.pair = some (asn, peerName)
  idle : m.phase = .idle
  changes : m.changes = []

/-- And it has recorded a change of the pair. -/
structure Owing (op : Op) (asn : UInt32) (peerName : String) (m : Turn) : Prop
    extends Holding op asn peerName m where
  owes : m.owes = true

/-- What is left of the mode when a task has ended. -/
structure Ended (op : Op) (m : Turn) : Prop where
  op_eq : m.op = op
  idle : m.phase = .idle
  changes : m.changes = []

lemma Holding.released (h : Holding op asn peerName m) : Ended op m.released := by
  rw [Turn.released, h.idle]
  exact ⟨h.op_eq, rfl, by simp [h.changes]⟩

/-- With an event of its own in the queue, a request may do everything it does. -/
lemma Owing.call (hop : op ≠ .syncPendingPeerChanges) (h : Owing op asn peerName m)
    (he : OnPeer p W e) :
    turnAllowed U m e ∧ ∀ r, Owing op asn peerName (turnNext U m e r) := by
  have hlists : ∀ peers, Owing op asn peerName (m.lists peers) := fun peers => by
    rwa [lists_of_ne (h.op_eq ▸ hop)]
  have hwrote := wrote_of_idle h.idle
  have hfailed : Owing op asn peerName m.failed := by rwa [failed_of_idle h.idle]
  cases e with
  | io c =>
    cases c with
    | listPeers =>
      refine ⟨fun hs => absurd (h.op_eq ▸ hs) hop, fun r => ?_⟩
      cases r with
      | ok peers => exact hlists peers
      | error e => exact hfailed
    | runNftBatch ports =>
      refine ⟨fun _ _ => .inr (.inl h.owes), fun r => ?_⟩
      cases r with
      | ok u =>
        simp only [turnNext, hwrote, ite_self]
        exact h
      | error e => exact hfailed
    | syncBirdFiles peers force =>
      refine ⟨fun _ _ => .inl h.owes, fun r => ?_⟩
      cases r with
      | ok u =>
        simp only [turnNext, hwrote, ite_self]
        exact h
      | error e => exact hfailed
    | updatePeerDesired q =>
      refine ⟨trivial, fun r => ?_⟩
      rcases r with e | (_ | _)
      · exact hfailed
      · exact h
      · exact ⟨⟨h.op_eq, h.pair, h.idle, h.changes⟩, by simp [turnNext, h.owes]⟩
    | setStatus peerId status =>
      refine ⟨trivial, fun r => ?_⟩
      rcases r with e | (_ | _)
      · exact hfailed
      · exact hfailed
      · exact ⟨⟨h.op_eq, h.pair, h.idle, h.changes⟩, by simp [turnNext, h.owes]⟩
    | deletePeer peerId =>
      refine ⟨trivial, fun r => ?_⟩
      rcases r with e | (_ | _)
      · exact hfailed
      · exact hfailed
      · exact h
    | peerExists => exact he.elim
    | getPeer => exact he.elim
    | getPeerById => exact he.elim
    | listPeerChanges => exact he.elim
    | deletePeerChange => exact he.elim
    | nextPeerId => exact he.elim
    | reservePeer => exact he.elim
    | listenPortInUse => exact he.elim
    | listManagedInterfaces => exact he.elim
    | _ =>
      refine ⟨trivial, fun r => ?_⟩
      cases r with
      | ok u => exact h
      | error e => exact hfailed
  | lock l => cases l <;> first | exact he.elim | exact ⟨trivial, fun _ => h⟩
  | unlock l => cases l <;> first | exact he.elim | exact ⟨trivial, fun _ => h⟩
  | resolveEndpoint text => exact ⟨trivial, fun _ => h⟩

lemma follows_owing {x : Manager α} (hop : op ≠ .syncPendingPeerChanges)
    (h : Owing op asn peerName m) (hx : Calls (OnPeer p W) x.run) :
    Follows (turns U) x.run m fun m' _ => Owing op asn peerName m' :=
  Follows.of_kept h (hx.mono fun _ he _ hm => ⟨(hm.call hop he).1, fun r _ => (hm.call hop he).2 r⟩)

section Requests
variable {pubkey : WgPubKey} {linkLocal : Option (Ipv6.Ipv6Addr × Ipv6.Ipv6Addr)}

/-- A guarded request ends released, if its body ends with the lock. -/
lemma follows_guarded {x : Manager α} (hm : m = .start op)
    (inside : Holding op asn peerName { m with pair := some (asn, peerName) } →
      Follows (turns U) x.run { m with pair := some (asn, peerName) } fun m' _ =>
        Holding op asn peerName m')
    (hop : op ≠ .syncPendingPeerChanges) :
    Follows (turns U) (withLock (.peer asn peerName) x).run m fun m' _ => Ended op m' := by
  subst hm
  refine follows_withLock ⟨rfl, rfl, fun h => absurd h hop⟩ fun _ => ?_
  exact (inside ⟨rfl, rfl, rfl, rfl⟩).mono fun _ _ h => ⟨h.pair, fun _ => h.released⟩

/-- Reads and draws before the request has recorded anything. -/
lemma Holding.call (h : Holding op asn peerName m) {c : Io}
    (hc : (∃ port, c = .listenPortInUse port) ∨ c = .peerExists asn peerName ∨ c = .nextPeerId) :
    turnAllowed U m (.io c) ∧ ∀ r, Holding op asn peerName (turnNext U m (.io c) r) := by
  have hfailed : Holding op asn peerName m.failed := by rwa [failed_of_idle h.idle]
  rcases hc with ⟨port, rfl⟩ | rfl | rfl <;> refine ⟨trivial, fun r => ?_⟩ <;> cases r <;> assumption

lemma Holding.reserve (hop : op ≠ .syncPendingPeerChanges) (h : Holding op asn peerName m)
    (test : Bool) (hp : p.pair = (asn, peerName)) :
    turnAllowed U m (.io (.reservePeer p test)) ∧ ∀ r,
      Holding op asn peerName (turnNext U m (.io (.reservePeer p test)) r) ∧
      (r = .ok true → test = false →
        Owing op asn peerName (turnNext U m (.io (.reservePeer p test)) r)) := by
  have hfailed : Holding op asn peerName m.failed := by rwa [failed_of_idle h.idle]
  refine ⟨⟨by rw [h.pair, hp], h.op_eq ▸ hop⟩, fun r => ?_⟩
  rcases r with e | (_ | _)
  · exact ⟨by cases test <;> exact hfailed, fun hr => by cases hr⟩
  · exact ⟨by cases test <;> exact h, fun hr => by cases hr⟩
  · cases test with
    | true => exact ⟨h, fun _ ht => by cases ht⟩
    | false =>
      have owing : Owing op asn peerName { m with owes := true } :=
        ⟨⟨h.op_eq, h.pair, h.idle, h.changes⟩, rfl⟩
      exact ⟨owing.toHolding, fun _ _ => owing⟩

lemma follows_reservePeer {endpoint : Option String} {mtu : UInt16}
    (hop : op ≠ .syncPendingPeerChanges) (h : Holding op asn peerName m) :
    Follows (turns U) (reservePeer cfg asn peerName pubkey endpoint linkLocal mtu).run m
      fun m' result => Holding op asn peerName m' ∧
        ∀ peer, result = .ok peer → asn ≠ cfg.localAsn → Owing op asn peerName m' := by
  have reads : ∀ c, (c = .peerExists asn peerName ∨ ∃ port, c = .listenPortInUse port) → ∀ m,
      Holding op asn peerName m → turnAllowed U m (.io c) ∧
        ∀ r, True → Holding op asn peerName (turnNext U m (.io c) r) := by
    intro c hc m hm
    have := hm.call (U := U) (c := c) (by tauto)
    exact ⟨this.1, fun r _ => this.2 r⟩
  refine Follows.run_bind (x := allocatePeerId) (B := fun m' _ => Holding op asn peerName m') ?_
    (fun m' peerId hm' => ?_) fun _ _ hm' => ⟨hm', fun _ he => by cases he⟩
  · have draw := h.call (U := U) (c := .nextPeerId) (.inr (.inr rfl))
    refine follows_io_bind draw.1 (fun n _ => ?_) fun e _ => draw.2 (.error e)
    split
    · exact follows_return (draw.2 (.ok n))
    · exact follows_throw (draw.2 (.ok n))
  · generalize List.range 10000 = increments
    refine (follows_reserveFrom (B := fun m _ => Holding op asn peerName m ∧
      (asn ≠ cfg.localAsn → Owing op asn peerName m)) hm' reads fun port m hm => ?_).mono ?_
    · have reserve := hm.reserve (U := U) hop (p := buildPeer peerId asn peerName pubkey endpoint
        (linkLocal.getD (Ipv6.asnLinkLocal cfg.localAsn, Ipv6.asnLinkLocal asn)) port mtu)
        (decide (asn = cfg.localAsn)) rfl
      refine ⟨reserve.1, fun r _ => ⟨fun hr => ⟨(reserve.2 r).1, fun hne => ?_⟩,
        fun _ => (reserve.2 r).1⟩⟩
      exact (reserve.2 r).2 hr (by simpa using hne)
    · rintro m' result ⟨hok, herr⟩
      cases result with
      | ok peer => exact ⟨(hok peer rfl).1, fun _ _ => (hok peer rfl).2⟩
      | error e => exact ⟨herr e rfl, fun _ he => by cases he⟩

lemma follows_createPeer {endpoint : Option String} {mtu : Option UInt16}
    (hm : m = .start op) (hop : op ≠ .syncPendingPeerChanges) :
    Follows (turns U) (createPeer cfg asn peerName pubkey endpoint linkLocal mtu).run m
      fun m' _ => Ended op m' := by
  refine follows_guarded hm (fun h => ?_) hop
  have exist := h.call (U := U) (c := .peerExists asn peerName) (.inr (.inl rfl))
  refine follows_io_bind exist.1 (fun taken _ => ?_) fun e _ => exist.2 (.error e)
  cases taken with
  | true => exact follows_throw (exist.2 (.ok true))
  | false =>
    refine Follows.run_bind (B := fun m' result => Holding op asn peerName m' ∧
      ∀ peer : Peer, result = .ok peer → asn ≠ cfg.localAsn → Owing op asn peerName m') ?_
      (fun m' peer hm' => ?_) fun _ _ hm' => hm'.1
    · refine follows_withLock trivial fun _ => ?_
      exact (follows_reservePeer hop h).mono fun _ _ hm' => ⟨trivial, fun _ => hm'⟩
    · split
      · exact follows_return hm'.1
      · rename_i hne
        exact (follows_owing hop (hm'.2 peer rfl hne) (calls_provision (W := fun _ => False)
          asn)).mono fun _ _ h => h.toHolding

/-- A change of a row. -/
lemma Holding.record (h : Holding op asn peerName m) {c : Io}
    (hc : (∃ q, c = .updatePeerDesired q ∧ q.peerId = p.peerId) ∨
      ∃ status, c = .setStatus p.peerId status) :
    turnAllowed U m (.io c) ∧ ∀ r : Except PeerError c.Value,
      Holding op asn peerName (turnNext U m (.io c) r) := by
  have hfailed : Holding op asn peerName m.failed := by rwa [failed_of_idle h.idle]
  rcases hc with ⟨q, rfl, hq⟩ | ⟨status, rfl⟩ <;> refine ⟨trivial, fun r => ?_⟩ <;>
    rcases r with e | (_ | _) <;>
    first | exact hfailed | exact h | exact ⟨h.op_eq, h.pair, h.idle, h.changes⟩

/-- The row of the pair is read, and what follows is done with it, or the pair has none. -/
lemma follows_readRow {f : Peer → Manager Peer} (hop : op ≠ .syncPendingPeerChanges)
    (h : Holding op asn peerName m)
    (found : ∀ peer m, Holding op asn peerName m → m.row = some peer.peerId →
      Follows (turns U) (f peer).run m fun m' _ => Holding op asn peerName m') :
    Follows (turns U) (io (.getPeer asn peerName) >>= fun row =>
      orNotFound asn peerName row >>= f : Manager Peer).run m
        fun m' _ => Holding op asn peerName m' := by
  have hfailed : Holding op asn peerName m.failed := by rwa [failed_of_idle h.idle]
  refine follows_io_bind ⟨h.pair, h.op_eq ▸ hop⟩ (fun row _ => ?_) fun e _ => hfailed
  cases row with
  | none => exact follows_throw h
  | some peer =>
    have read : Holding op asn peerName { m with row := some peer.peerId } :=
      ⟨h.op_eq, h.pair, h.idle, h.changes⟩
    exact Follows.run_bind (x := orNotFound asn peerName (some peer))
      (B := fun m' result => result = .ok peer ∧ m' = { m with row := some peer.peerId }) ⟨rfl, rfl⟩
      (fun m' p hp => by
        obtain ⟨hpeer, rfl⟩ := hp
        cases hpeer
        exact found peer _ read rfl) fun _ _ he => by cases he.1

lemma follows_updatePeer {endpoint : Option (Option String)} {mtu : Option (Option UInt16)}
    (hm : m = .start op) (hop : op ≠ .syncPendingPeerChanges) :
    Follows (turns U) (updatePeer cfg asn peerName pubkey endpoint linkLocal mtu).run m
      fun m' _ => Ended op m' := by
  refine follows_guarded hm (fun h => follows_readRow hop h fun old m h hrow => ?_) hop
  split
  · exact follows_throw h
  · have record := h.record (U := U) (p := old) (c := .updatePeerDesired
      (desiredPeer cfg asn pubkey endpoint linkLocal mtu old)) (.inl ⟨_, rfl, rfl⟩)
    refine follows_io_bind record.1 (fun stored _ => ?_) fun e _ => record.2 (.error e)
    cases stored with
    | false => exact follows_throw (record.2 (.ok false))
    | true =>
      have owing : Owing op asn peerName { m with owes := m.owes || m.row = some old.peerId } :=
        ⟨⟨h.op_eq, h.pair, h.idle, h.changes⟩, by simp [hrow]⟩
      have calls : Calls (OnPeer old fun _ => True) (reprovision asn peerName old
          (desiredPeer cfg asn pubkey endpoint linkLocal mtu old)).run :=
        calls_reprovision asn peerName trivial rfl rfl
      exact (follows_owing hop owing calls).mono fun _ _ h => h.toHolding

lemma follows_deletePeer (hm : m = .start op) (hop : op ≠ .syncPendingPeerChanges) :
    Follows (turns U) (deletePeer asn peerName).run m fun m' _ => Ended op m' := by
  refine follows_guarded hm (fun h => follows_readRow hop h fun peer m h hrow => ?_) hop
  have record := h.record (U := U) (p := peer) (c := .setStatus peer.peerId .deleting) (.inr ⟨_, rfl⟩)
  refine follows_io_bind record.1 (fun marked _ => ?_) fun e _ => record.2 (.error e)
  cases marked with
  | false => exact follows_throw (record.2 (.ok false))
  | true =>
    have owing : Owing op asn peerName { m with owes := m.owes || m.row = some peer.peerId } :=
      ⟨⟨h.op_eq, h.pair, h.idle, h.changes⟩, by simp [hrow]⟩
    exact (follows_owing hop owing (calls_dismantle (W := fun _ => True) asn peerName)).mono
      fun _ _ h => h.toHolding

end Requests

section Listener
variable {c : PeerChange} {rest : List PeerChange} {A B : Phase → Prop} {β : Type}

/-- The listener holds the lock of the pair of the event it works on. -/
structure Working (c : PeerChange) (rest : List PeerChange) (m : Turn) : Prop where
  op_eq : m.op = .syncPendingPeerChanges
  pair : m.pair = some c.peer.pair
  changes : m.changes = c :: rest

/-- A part of the work on the event ended: well in a phase that meets `A`, badly in one that leaves
the event open. -/
structure Worked (c : PeerChange) (rest : List PeerChange) (A : Phase → Prop) (m : Turn)
    (result : Except PeerError α) : Prop extends Working c rest m where
  ok : ∀ v, result = .ok v → A m.phase
  error : ∀ e, result = .error e → m.phase ≠ .written

lemma Working.failed (h : Working c rest m) : Working c rest m.failed ∧ m.failed.phase ≠ .written := by
  unfold Turn.failed
  split
  · exact ⟨⟨h.op_eq, h.pair, h.changes⟩, by simp⟩
  · exact ⟨h, by simpa using ‹_›⟩

lemma Working.lists (h : Working c rest m) (peers : List Peer) :
    Working c rest (m.lists peers) ∧ (m.phase = .written → m.lists peers = m) ∧
      (m.phase ≠ .written → (m.lists peers).phase = .listed peers) := by
  unfold Turn.lists
  rw [h.op_eq]
  cases hp : m.phase with
  | written => exact ⟨h, fun _ => rfl, fun hne => absurd rfl hne⟩
  | idle => exact ⟨⟨rfl, h.pair, h.changes⟩, by simp, fun _ => rfl⟩
  | listed _ => exact ⟨⟨rfl, h.pair, h.changes⟩, by simp, fun _ => rfl⟩

lemma Working.wrote (h : Working c rest m) :
    Working c rest m.wrote ∧ (m.phase ≠ .idle → m.wrote.phase = .written) := by
  unfold Turn.wrote
  cases hp : m.phase with
  | written => exact ⟨h, fun _ => hp⟩
  | idle => exact ⟨h, fun hne => absurd rfl hne⟩
  | listed _ => exact ⟨⟨h.op_eq, h.pair, h.changes⟩, fun _ => rfl⟩

lemma Worked.bind {x : Manager α} {f : α → Manager β}
    (hx : Follows (turns U) x.run m (Worked c rest A))
    (hf : ∀ a m, Working c rest m → A m.phase → Follows (turns U) (f a).run m (Worked c rest B)) :
    Follows (turns U) (x >>= f).run m (Worked c rest B) :=
  Follows.run_bind hx (fun m' a h => hf a m' h.toWorking (h.ok a rfl))
    fun _ e h => ⟨h.toWorking, fun _ he => (by cases he), fun _ _ => h.error e rfl⟩

lemma worked_return {a : α} (h : Working c rest m) (hp : A m.phase) :
    Follows (turns U) (return a : Manager α).run m (Worked c rest A) :=
  follows_return ⟨h, fun _ _ => hp, fun _ he => by cases he⟩

/-- The calls that neither list nor write nor settle the row. -/
def Aside : Io → Prop
  | .ensureWgInterface .. | .configurePeer .. | .configureLocalAddress .. | .deleteInterface _
  | .getPeerById _ => True
  | _ => False

lemma worked_aside {d : Io} (hd : Aside d) (h : Working c rest m) (hp : A m.phase) :
    Follows (turns U) (io d).run m (Worked c rest A) := by
  cases d <;> first
    | exact hd.elim
    | exact follows_io trivial fun r _ => by
        cases r with
        | ok v => exact ⟨h, fun _ _ => hp, fun _ he => by cases he⟩
        | error e => exact ⟨h.failed.1, fun _ he => (by cases he), fun _ _ => h.failed.2⟩

/-- The last step on a row works, or the event stays. -/
lemma worked_setStatus {peerId : UInt32} {error : PeerError} (h : Working c rest m)
    (hp : A m.phase) :
    Follows (turns U) (io (.setStatus peerId .active) >>= fun stored =>
      if stored then return () else throw error : Manager Unit).run m (Worked c rest A) := by
  refine follows_io_bind trivial (fun stored _ => ?_) fun e _ =>
    ⟨h.failed.1, fun _ he => (by cases he), fun _ _ => h.failed.2⟩
  cases stored with
  | true => exact worked_return ⟨h.op_eq, h.pair, h.changes⟩ hp
  | false => exact follows_throw ⟨h.failed.1, fun _ he => (by cases he), fun _ _ => h.failed.2⟩

lemma worked_deletePeer {peerId : UInt32} {error : PeerError} (h : Working c rest m)
    (hp : A m.phase) :
    Follows (turns U) (io (.deletePeer peerId) >>= fun deleted =>
      if deleted then return () else throw error : Manager Unit).run m (Worked c rest A) := by
  refine follows_io_bind trivial (fun deleted _ => ?_) fun e _ =>
    ⟨h.failed.1, fun _ he => (by cases he), fun _ _ => h.failed.2⟩
  cases deleted with
  | true => exact worked_return h hp
  | false => exact follows_throw ⟨h.failed.1, fun _ he => (by cases he), fun _ _ => h.failed.2⟩

/-- The phase after BIRD was synced. -/
def Synced (U : Outlet cfg X) (phase : Phase) : Prop := phase = .written ↔ U.onBird = true

lemma worked_guarded {l : Lock} (hl : ∀ asn peerName, l ≠ .peer asn peerName) {x : Manager α}
    (hx : Follows (turns U) x.run m (Worked c rest A)) :
    Follows (turns U) (withLock l x).run m (Worked c rest A) := by
  cases l with
  | peer asn peerName => exact absurd rfl (hl asn peerName)
  | _ => exact follows_withLock trivial fun _ => hx.mono fun _ _ h => ⟨trivial, fun _ => h⟩

lemma turnNext_bird {force : Bool} {u : Unit} :
    turnNext U m (.io (.syncBirdFiles peers force)) (.ok u) = if U.onBird then m.wrote else m := by
  cases hb : U.onBird <;> simp [turnNext, U.writes_bird, hb]

lemma turnNext_nft {u : Unit} :
    turnNext U m (.io (.runNftBatch (nftPorts peers))) (.ok u) = if U.onBird then m else m.wrote := by
  cases hb : U.onBird <;> simp [turnNext, U.writes_nft, hb]

/-- BIRD is synced with the snapshot just taken. -/
lemma worked_syncBirdFiles (h : Working c rest m) (hp : m.phase = .listed peers) :
    Follows (turns U) (io (.syncBirdFiles peers false)).run m (Worked c rest (Synced U)) := by
  refine follows_io (fun x hx => .inr ⟨peers, hp, ?_⟩) fun r _ => ?_
  · rw [U.writes_bird] at hx
    split at hx <;> cases hx
    rfl
  · cases r with
    | error e => exact ⟨h.failed.1, fun _ he => (by cases he), fun _ _ => h.failed.2⟩
    | ok u =>
      change Worked c rest (Synced U) (turnNext U m (.io (.syncBirdFiles peers false)) (.ok u)) _
      rw [turnNext_bird]
      split
      · rename_i hb
        have hw := h.wrote.2 (by simp [hp])
        exact ⟨h.wrote.1, fun _ _ => ⟨fun _ => hb, fun _ => hw⟩, fun _ he => by cases he⟩
      · rename_i hb
        exact ⟨h, fun _ _ => ⟨fun hw => (by simp [hp] at hw), fun ht => absurd ht hb⟩,
          fun _ he => by cases he⟩

lemma worked_runNftBatch (h : Working c rest m) (written : U.onBird = true → m.phase = .written)
    (listed : U.onBird = false → m.phase = .listed peers) :
    Follows (turns U) (io (.runNftBatch (nftPorts peers))).run m (Worked c rest (· = .written)) := by
  refine follows_io (fun x hx => ?_) fun r _ => ?_
  · rw [U.writes_nft] at hx
    split at hx <;> cases hx
    exact .inr (.inr ⟨peers, listed (Bool.eq_false_of_not_eq_true ‹_›), rfl⟩)
  · cases r with
    | error e => exact ⟨h.failed.1, fun _ he => (by cases he), fun _ _ => h.failed.2⟩
    | ok u =>
      change Worked c rest (· = .written)
        (turnNext U m (.io (.runNftBatch (nftPorts peers))) (.ok u)) _
      rw [turnNext_nft]
      split
      · exact ⟨h, fun _ _ => written ‹_›, fun _ he => by cases he⟩
      · have hl := listed (Bool.eq_false_of_not_eq_true ‹_›)
        exact ⟨h.wrote.1, fun _ _ => h.wrote.2 (by simp [hl]), fun _ he => by cases he⟩

lemma worked_syncBirdConfigs (h : Working c rest m) (hp : m.phase ≠ .written) :
    Follows (turns U) syncBirdConfigs.run m (Worked c rest (Synced U)) := by
  refine follows_io_bind (fun _ => by simp [h.pair]) (fun peers _ => ?_) fun e _ =>
    ⟨h.failed.1, fun _ he => (by cases he), fun _ _ => h.failed.2⟩
  obtain ⟨hw, -, hl⟩ := h.lists peers
  exact worked_guarded (by simp) (worked_syncBirdFiles hw (hl hp))

lemma worked_syncNftPorts (h : Working c rest m) (hp : Synced U m.phase) :
    Follows (turns U) syncNftPorts.run m (Worked c rest (· = .written)) := by
  refine follows_io_bind (fun _ => by simp [h.pair]) (fun peers _ => ?_) fun e _ =>
    ⟨h.failed.1, fun _ he => (by cases he), fun _ _ => h.failed.2⟩
  obtain ⟨hw, hsame, hl⟩ := h.lists peers
  refine worked_guarded (by simp) (worked_runNftBatch hw (fun hb => ?_) fun hb => hl fun hw => ?_)
  · change (m.lists peers).phase = .written
    rw [hsame (hp.mpr hb)]
    exact hp.mpr hb
  · exact absurd (hp.mp hw) (by simp [hb])

lemma worked_applyPeer (h : Working c rest m) (hp : m.phase ≠ .written) :
    Follows (turns U) (applyPeer p).run m (Worked c rest (Synced U)) := by
  have resolve : ∀ text (m : Turn), Working c rest m → m.phase ≠ .written →
      Follows (turns U) (resolveOptional text).run m (Worked c rest (· ≠ .written)) := by
    intro text m h hp
    cases text with
    | none => exact worked_return h hp
    | some text =>
      refine Worked.bind (x := resolveEndpoint text) (A := (· ≠ .written)) ⟨trivial, fun r _ => ?_⟩
        fun _ _ h hp => worked_return h hp
      exact ⟨h, fun _ _ => hp, fun _ _ => hp⟩
  refine Worked.bind (A := (· ≠ .written)) ?_ fun _ m h hp => worked_syncBirdConfigs h hp
  refine Worked.bind (A := (· ≠ .written)) (worked_aside trivial h hp) fun _ m h hp => ?_
  refine Worked.bind (resolve _ m h hp) fun _ m h hp => ?_
  exact Worked.bind (A := (· ≠ .written)) (worked_aside trivial h hp) fun _ m h hp =>
    worked_aside trivial h hp

lemma worked_removeExternalState (h : Working c rest m) (hp : m.phase ≠ .written) :
    Follows (turns U) (removeExternalState p).run m (Worked c rest (Synced U)) :=
  Worked.bind (worked_syncBirdConfigs h hp) fun _ _ h hp => worked_aside trivial h hp

lemma worked_settleRow {snapshot : Peer} {row : Option Peer} (h : Working c rest m)
    (hp : m.phase ≠ .written) :
    Follows (turns U) (settleRow snapshot row).run m (Worked c rest (Synced U)) := by
  cases row with
  | none => exact worked_removeExternalState h hp
  | some peer =>
    simp only [settleRow]
    split
    · refine Worked.bind (worked_applyPeer h hp) fun _ m h hp => ?_
      split
      · exact worked_setStatus h hp
      · exact worked_return h hp
    · split
      · exact Worked.bind (worked_removeExternalState h hp) fun _ m h hp => worked_deletePeer h hp
      · exact worked_removeExternalState h hp

/-- Between two events the listener has these left. -/
structure Between (rest : List PeerChange) (m : Turn) : Prop where
  op_eq : m.op = .syncPendingPeerChanges
  pair : m.pair = none
  idle : m.phase = .idle
  changes : m.changes = rest

/-- The lock is released with the event still to be removed if the work on it went well. -/
lemma follows_applyPeerChange (h : Between (c :: rest) m) :
    Follows (turns U) (applyPeerChange c).run m fun m' result =>
      (result = .ok () → m'.op = .syncPendingPeerChanges ∧ m'.pair = none ∧ m'.phase = .written ∧
        m'.changes = c :: rest) ∧ ∀ e, result = .error e → Between rest m' := by
  refine follows_withLock ⟨h.pair, h.idle, fun _ => ⟨c, rest, h.changes, rfl⟩⟩ fun _ => ?_
  have start : Working c rest { m with pair := some c.peer.pair } := ⟨h.op_eq, rfl, h.changes⟩
  have body : Follows (turns U) (io (.getPeerById c.peer.peerId) >>= fun row =>
      settleRow c.peer row >>= fun _ => syncNftPorts : Manager Unit).run
      { m with pair := some c.peer.pair } (Worked c rest (· = .written)) := by
    refine Worked.bind (A := (· ≠ .written)) (worked_aside trivial start (by simp [h.idle]))
      fun row m h hp => ?_
    exact Worked.bind (worked_settleRow h hp) fun _ m h hp => worked_syncNftPorts h hp
  refine body.mono fun m' result hw => ⟨hw.pair, fun _ => ⟨fun hok => ?_, fun e he => ?_⟩⟩
  · have written := hw.ok () hok
    change m'.released.op = _ ∧ m'.released.pair = _ ∧ m'.released.phase = _ ∧ m'.released.changes = _
    rw [Turn.released, written]
    exact ⟨hw.op_eq, rfl, rfl, hw.changes⟩
  · have open' := hw.error e he
    change Between rest m'.released
    unfold Turn.released
    split
    · exact absurd ‹_› open'
    · exact ⟨hw.op_eq, rfl, rfl, by simp [hw.changes]⟩

lemma follows_processChanges {firstError : Option PeerError} {changes : List PeerChange}
    (h : Between changes m) :
    Follows (turns U) (processChanges firstError changes).run m
      fun m' _ => Ended .syncPendingPeerChanges m' := by
  induction changes generalizing firstError m with
  | nil => cases firstError <;> exact ⟨h.op_eq, h.idle, h.changes⟩
  | cons c rest ih =>
    refine Follows.run_bind (x := processChange c) (B := fun m' result => Between rest m' ∧
      ∀ e, result ≠ .error e) ?_ (fun m' _ h => ih h.1) fun _ e h => absurd rfl (h.2 e)
    refine follows_attempt_bind ((follows_applyPeerChange h).mono fun m result hr => ?_)
    cases result with
    | error e => exact follows_return ⟨hr.2 e rfl, by simp⟩
    | ok u =>
      obtain ⟨hop, hpair, hphase, hchanges⟩ := hr.1 rfl
      refine follows_attempt_bind (follows_io ⟨hpair, hphase, c, rest, hchanges, rfl⟩ fun gone _ => ?_)
      have next : Between rest { m with changes := m.changes.tail, phase := .idle } :=
        ⟨hop, hpair, rfl, by simp [hchanges]⟩
      cases gone <;> exact follows_return ⟨next, by simp⟩

lemma follows_syncPendingPeerChanges :
    Follows (turns U) syncPendingPeerChanges.run (.start .syncPendingPeerChanges)
      fun m' _ => Ended .syncPendingPeerChanges m' :=
  follows_io_bind ⟨rfl, rfl, rfl⟩ (fun _ _ => follows_processChanges ⟨rfl, rfl, rfl, rfl⟩)
    fun _ _ => ⟨rfl, rfl, rfl⟩

end Listener

/-- Every task but recovery keeps to the discipline. -/
theorem follows_program (hop : op ≠ .recover) :
    Follows (turns U) (program cfg op) (.start op) fun m _ => Ended op m := by
  cases op with
  | createPeer => exact follows_answerPeer (follows_createPeer rfl (by simp))
  | updatePeer => exact follows_answerPeer (follows_updatePeer rfl (by simp))
  | deletePeer => exact follows_answerPeer (follows_deletePeer rfl (by simp))
  | syncPendingPeerChanges => exact follows_answerNone follows_syncPendingPeerChanges
  | syncNftPorts =>
    refine follows_answerNone ?_
    suffices same : Follows (turns U) syncNftPorts.run (.start .syncNftPorts)
        fun m' _ => m' = .start .syncNftPorts from
      same.mono fun m _ h => h ▸ ⟨rfl, rfl, rfl⟩
    refine follows_io_bind (fun h => by cases h) (fun peers _ => ?_) fun _ _ => rfl
    refine follows_withLock trivial fun _ => follows_io (fun _ _ => .inl rfl) fun r _ =>
      ⟨trivial, fun _ => ?_⟩
    cases r with
    | error e => rfl
    | ok u => exact (turnNext_nft (m := .start .syncNftPorts) (u := u)).trans (by split <;> rfl)
  | recover => exact absurd rfl hop

end Turns

end Autopeer.SnapshotWriters
