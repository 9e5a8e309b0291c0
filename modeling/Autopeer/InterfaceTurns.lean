import Autopeer.ChangeDelivery
import Autopeer.OperationEffects
import Autopeer.TableInvariant

/-! Who may touch the interface of a row, and when: a request that has recorded a change of the row,
the listener in the order in which it settles the row of its event, and recovery as the rows that it
has listed ask for. -/
namespace Autopeer.InterfaceTurns
open PeerData ProgramTree ProgramPool
open ManagerWorld ManagerPrograms ManagerSystem ManagerFootprints ManagerRules OperationEffects

variable {cfg : Config} {α β : Type}

section Modes

/-- How far the listener has come with the interface of a row. -/
inductive Stage
  | untouched
  | linked
  | keyed
  | addressed
  | removed
  /-- The row itself was written, so that it has an event again. -/
  | recorded
  deriving DecidableEq

def Stage.after (stage : Stage) : Io → Stage
  | .ensureWgInterface .. => .linked
  | .configurePeer .. => .keyed
  | .configureLocalAddress .. => .addressed
  | .deleteInterface _ => .removed
  | _ => stage

/-- How far a pass has come with its event; what it has read is the row that the event is about. -/
inductive Progress
  | idle
  | working (row : Option Peer) (stage : Stage)
  | finished

/-- The row and its interface need nothing more, or there is an event of the row again. -/
def Complete : Option Peer → Stage → Prop
  | _, .recorded => True
  | some p, .addressed => p.status = .active
  | some p, .removed => p.status = .disabled
  | none, .removed => True
  | _, _ => False

/-- What a task was started for, the pair whose lock it has, the row of the pair, whether a change of
its own to the row is in the queue, the events it still has to work on, how far it is with the first
of them, and the rows that recovery has listed. -/
structure Hand where
  op : Op
  pair : Option Pair
  row : Option UInt32
  owes : Bool
  changes : List PeerChange
  progress : Progress
  listed : Option (List Peer)

namespace Hand

def start (op : Op) : Hand := ⟨op, none, none, false, [], .idle, none⟩

def released (m : Hand) : Hand :=
  match m.progress with
  | .idle =>
    { m with
      pair := none, row := none, owes := false
      changes := if m.op = .syncPendingPeerChanges then m.changes.tail else m.changes }
  | _ => { m with pair := none, row := none, owes := false, progress := .finished }

/-- A step of the pass went wrong, so the event will stay. -/
def failed (m : Hand) : Hand := { m with progress := .idle }

def reads (m : Hand) (row : Option Peer) : Hand :=
  if m.op = .syncPendingPeerChanges then { m with progress := .working row .untouched } else m

def lists (m : Hand) (peers : List Peer) : Hand :=
  if m.op = .recover then { m with listed := some peers } else m

/-- The row was written. -/
def records (m : Hand) (peerId : UInt32) : Hand :=
  { m with
    owes := m.owes || m.row = some peerId
    progress :=
      match m.progress with
      | .working row _ => .working row .recorded
      | progress => progress }

def goesOn (m : Hand) (c : Io) : Hand :=
  { m with
    progress :=
      match m.progress with
      | .working row stage => .working row (stage.after c)
      | progress => progress }

end Hand

/-- The listener sets up the interface of an enabled row, and removes that of another row or of none. -/
inductive Serves (snapshot : Peer) : Option Peer → Stage → Io → Prop
  | ensure {p : Peer} (enabled : p.enabled = true) :
    Serves snapshot (some p) .untouched (.ensureWgInterface p.ifaceName p.peerId p.mtu)
  | configure {p : Peer} {endpoint : Option SocketAddr}
    (resolved : endpoint.isSome = p.endpoint.isSome) :
    Serves snapshot (some p) .linked (.configurePeer p.ifaceName p.listenPort p.pubkey endpoint)
  | address {p : Peer} :
    Serves snapshot (some p) .keyed (.configureLocalAddress p.ifaceName p.localLlIp)
  | remove {p : Peer} (disabled : p.enabled = false) :
    Serves snapshot (some p) .untouched (.deleteInterface p.ifaceName)
  | removeOld : Serves snapshot none .untouched (.deleteInterface snapshot.ifaceName)

/-- Recovery sets up the interfaces of the enabled rows in its list, and removes no such interface,
unless it is one of a queued event. -/
inductive Repairs (peers : List Peer) (changes : List PeerChange) : Io → Prop
  | ensure {p : Peer} (listed : p ∈ peers) (enabled : p.enabled = true) :
    Repairs peers changes (.ensureWgInterface p.ifaceName p.peerId p.mtu)
  | configure {p : Peer} {endpoint : Option SocketAddr} (listed : p ∈ peers)
    (enabled : p.enabled = true) (resolved : endpoint.isSome = p.endpoint.isSome) :
    Repairs peers changes (.configurePeer p.ifaceName p.listenPort p.pubkey endpoint)
  | address {p : Peer} (listed : p ∈ peers) (enabled : p.enabled = true) :
    Repairs peers changes (.configureLocalAddress p.ifaceName p.localLlIp)
  | remove {name : String} (unlisted : ∀ p ∈ peers, p.enabled = true → p.ifaceName ≠ name) :
    Repairs peers changes (.deleteInterface name)
  | removeDeleted {c : PeerChange} (queued : c ∈ changes) :
    Repairs peers changes (.deleteInterface c.peer.ifaceName)

/-- Why a task may make a call on the interface of this name. -/
def Touches (m : Hand) (name : String) (c : Io) : Prop :=
  (m.owes = true ∧ ∃ peerId, m.row = some peerId ∧ name = wgpName peerId) ∨
  (∃ row stage e rest, m.progress = .working row stage ∧ m.changes = e :: rest ∧
    Serves e.peer row stage c) ∨
  ∃ peers, m.listed = some peers ∧ Repairs peers m.changes c

/-- The event that the pass works on is about this row, if it works on one. -/
def OnHead (m : Hand) (peerId : UInt32) : Prop :=
  ∀ row stage, m.progress = .working row stage →
    ∃ c rest, m.changes = c :: rest ∧ c.peer.peerId = peerId

def handAllowed (m : Hand) : Call → Prop
  | .lock (.peer asn peerName) => m.pair = none ∧ m.progress = .idle ∧
    (m.op = .syncPendingPeerChanges → ∃ c rest, m.changes = c :: rest ∧ c.peer.pair = (asn, peerName))
  | .unlock (.peer asn peerName) => m.pair = some (asn, peerName) ∧
    (m.progress = .idle ∨ ∃ row stage, m.progress = .working row stage ∧ Complete row stage)
  | .io (.getPeer asn peerName) =>
    m.pair = some (asn, peerName) ∧ m.op ≠ .syncPendingPeerChanges
  | .io (.getPeerById peerId) => m.op = .syncPendingPeerChanges →
    m.pair.isSome ∧ m.progress = .idle ∧ ∃ c rest, m.changes = c :: rest ∧ c.peer.peerId = peerId
  | .io (.reservePeer p _) => m.pair = some p.pair ∧ m.op ≠ .syncPendingPeerChanges
  | .io (.setStatus peerId _) | .io (.deletePeer peerId) => OnHead m peerId
  | .io (.updatePeerDesired q) => OnHead m q.peerId
  | .io .listPeerChanges => m.pair = none ∧ m.progress = .idle ∧
    (m.op = .syncPendingPeerChanges ∨ m.op = .recover)
  | .io (.deletePeerChange eventId) => m.pair = none ∧ m.progress = .finished ∧
    ∃ c rest, m.changes = c :: rest ∧ c.eventId = eventId
  | .io c => ∀ name, OnIface name c → Touches m name c
  | _ => True

/-- The rows and events that the database gives have the interface names of their rows. -/
def handAnswer (_ : Hand) : (e : Call) → Answer e → Prop
  | .io (.getPeer ..), .ok (some p) => p.ifaceName = wgpName p.peerId
  | .io (.getPeerById peerId), .ok (some p) => p.ifaceName = wgpName p.peerId ∧ p.peerId = peerId
  | .io .listPeers, .ok peers => (∀ p ∈ peers, p.ifaceName = wgpName p.peerId) ∧
    (peers.map Peer.peerId).Nodup
  | _, _ => True

def handNext (m : Hand) : (e : Call) → Answer e → Hand
  | .lock (.peer asn peerName), _ => { m with pair := some (asn, peerName) }
  | .unlock (.peer ..), _ => m.released
  | .io (.getPeer ..), .ok (some p) => { m with row := some p.peerId, owes := false }
  | .io (.getPeerById _), .ok row => m.reads row
  | .io (.reservePeer p false), .ok true => { m with row := some p.peerId, owes := true }
  | .io (.updatePeerDesired q), .ok true => m.records q.peerId
  | .io (.setStatus peerId _), .ok true | .io (.deletePeer peerId), .ok true => m.records peerId
  | .io (.setStatus ..), .ok false | .io (.deletePeer _), .ok false => m.failed
  | .io .listPeers, .ok peers => m.lists peers
  | .io .listPeerChanges, .ok changes => { m with changes }
  | .io (.deletePeerChange _), _ => { m with changes := m.changes.tail, progress := .idle }
  | .io c, .ok _ => m.goesOn c
  | .io _, .error _ | .resolveEndpoint _, .error _ => m.failed
  | _, _ => m

def hands : Discipline Call Answer Hand := ⟨.start .recover, handAllowed, handAnswer, handNext⟩

/-- What is left of the mode when a task has ended. -/
structure Ended (op : Op) (m : Hand) : Prop where
  op_eq : m.op = op
  idle : m.progress = .idle
  changes : op ≠ .recover → m.changes = []

end Modes

variable {m : Hand} {op : Op} {asn : UInt32} {peerName : String} {p : Peer} {W : Peer → Prop} {e : Call}

lemma goesOn_of_idle {c : Io} (h : m.progress = .idle) : m.goesOn c = m := by
  obtain ⟨_, _, _, _, _, progress, _⟩ := m
  obtain rfl : progress = .idle := h
  rfl

lemma failed_of_idle (h : m.progress = .idle) : m.failed = m := by
  obtain ⟨_, _, _, _, _, progress, _⟩ := m
  obtain rfl : progress = .idle := h
  rfl

lemma lists_of_ne {peers : List Peer} (h : m.op ≠ .recover) : m.lists peers = m := if_neg h

lemma reads_of_ne {row : Option Peer} (h : m.op ≠ .syncPendingPeerChanges) : m.reads row = m :=
  if_neg h

lemma onHead_of_idle {peerId : UInt32} (h : m.progress = .idle) : OnHead m peerId := fun _ _ hp => by
  rw [h] at hp
  cases hp

lemma handNext_op (m : Hand) (e : Call) (a : Answer e) : (handNext m e a).op = m.op := by
  have released : m.released.op = m.op := by
    unfold Hand.released
    split <;> rfl
  have reads : ∀ row, (m.reads row).op = m.op := fun row => by
    unfold Hand.reads
    split <;> rfl
  have lists : ∀ peers, (m.lists peers).op = m.op := fun peers => by
    unfold Hand.lists
    split <;> rfl
  cases e with
  | lock l => cases l <;> rfl
  | unlock l =>
    cases l with
    | peer asn peerName => exact released
    | _ => rfl
  | resolveEndpoint text => cases a <;> rfl
  | io c =>
    cases c with
    | getPeer asn peerName => rcases a with e | (_ | p) <;> rfl
    | getPeerById peerId =>
      rcases a with e | row
      · rfl
      · exact reads row
    | listPeers =>
      rcases a with e | peers
      · rfl
      · exact lists peers
    | reservePeer p test => rcases a with e | (_ | _) <;> cases test <;> rfl
    | updatePeerDesired q => rcases a with e | (_ | _) <;> rfl
    | setStatus peerId status => rcases a with e | (_ | _) <;> rfl
    | deletePeer peerId => rcases a with e | (_ | _) <;> rfl
    | _ => rcases a with e | v <;> rfl

lemma hands_live (m : Hand) (e : Call) : ∃ a, hands.answer m e a := by
  cases e with
  | lock l => exact ⟨(), trivial⟩
  | unlock l => exact ⟨(), trivial⟩
  | resolveEndpoint text => exact ⟨.error .registryMismatch, trivial⟩
  | io c => exact ⟨.error .registryMismatch, by cases c <;> trivial⟩

lemma hand_op {p : Program Call Answer Reply} (h : Follows hands p m fun m' _ => Ended op m') :
    m.op = op :=
  Follows.tag_eq Hand.op (h.mono fun _ _ h => h.op_eq) handNext_op hands_live

/-- The address of an endpoint is there if the endpoint is. -/
lemma follows_resolveOptional {text : Option String} {Q : Hand → Except PeerError (Option String) → Prop}
    (resolved : ∀ address, address.isSome = text.isSome → Q m (.ok address))
    (failed : ∀ error, Q m.failed (.error error)) : Follows hands (resolveOptional text).run m Q := by
  cases text with
  | none => exact follows_return (resolved none rfl)
  | some text =>
    refine follows_run_bind.mpr ⟨trivial, fun r _ => ?_⟩
    cases r with
    | ok address => exact resolved (some address) rfl
    | error e => exact failed e

section Requests
variable {pubkey : WgPubKey} {linkLocal : Option (Ipv6.Ipv6Addr × Ipv6.Ipv6Addr)}

/-- What an operation of a request is not. -/
structure IsRequest (op : Op) : Prop where
  listener : op ≠ .syncPendingPeerChanges
  recover : op ≠ .recover

/-- A request holds the lock of its pair. -/
structure Holding (op : Op) (asn : UInt32) (peerName : String) (m : Hand) : Prop where
  op_eq : m.op = op
  pair : m.pair = some (asn, peerName)
  idle : m.progress = .idle
  changes : m.changes = []

/-- And it has recorded a change of this row. -/
structure Owing (op : Op) (asn : UInt32) (peerName : String) (p : Peer) (m : Hand) : Prop
    extends Holding op asn peerName m where
  owes : m.owes = true
  row : m.row = some p.peerId

lemma Holding.released (h : Holding op asn peerName m) : Ended op m.released := by
  rw [Hand.released, h.idle]
  exact ⟨h.op_eq, rfl, fun _ => by simp [h.changes]⟩

lemma Holding.records (h : Holding op asn peerName m) (peerId : UInt32) :
    Holding op asn peerName (m.records peerId) :=
  ⟨h.op_eq, h.pair, by rw [Hand.records, h.idle], h.changes⟩

lemma Owing.records (h : Owing op asn peerName p m) (peerId : UInt32) :
    Owing op asn peerName p (m.records peerId) :=
  ⟨h.toHolding.records peerId, by simp [Hand.records, h.owes], h.row⟩

/-- With a recorded change of the row, a request may do everything it does to the peer. -/
lemma Owing.call (request : IsRequest op) (name : p.ifaceName = wgpName p.peerId)
    (h : Owing op asn peerName p m) (he : OnPeer p W e) :
    handAllowed m e ∧ ∀ r, Owing op asn peerName p (handNext m e r) := by
  have failed : Owing op asn peerName p m.failed := by rwa [failed_of_idle h.idle]
  have goesOn : ∀ c, Owing op asn peerName p (m.goesOn c) := fun c => by rwa [goesOn_of_idle h.idle]
  have touches : ∀ {c}, ∀ n, OnIface n c → n = p.ifaceName → Touches m n c := fun n _ hn =>
    .inl ⟨h.owes, p.peerId, h.row, hn.trans name⟩
  cases e with
  | io c =>
    cases c with
    | listPeers =>
      refine ⟨fun _ hn => hn.elim, fun r => ?_⟩
      cases r with
      | ok peers =>
        change Owing op asn peerName p (m.lists peers)
        rwa [lists_of_ne (h.op_eq ▸ request.recover)]
      | error e => exact failed
    | updatePeerDesired q =>
      refine ⟨onHead_of_idle h.idle, fun r => ?_⟩
      rcases r with e | (_ | _)
      · exact failed
      · exact goesOn _
      · exact h.records _
    | setStatus peerId status =>
      refine ⟨onHead_of_idle h.idle, fun r => ?_⟩
      rcases r with e | (_ | _)
      · exact failed
      · exact failed
      · exact h.records _
    | deletePeer peerId =>
      refine ⟨onHead_of_idle h.idle, fun r => ?_⟩
      rcases r with e | (_ | _)
      · exact failed
      · exact failed
      · exact h.records _
    | runNftBatch ports =>
      refine ⟨fun _ hn => hn.elim, fun r => ?_⟩
      cases r with
      | ok u => exact goesOn _
      | error e => exact failed
    | syncBirdFiles peers force =>
      refine ⟨fun _ hn => hn.elim, fun r => ?_⟩
      cases r with
      | ok u => exact goesOn _
      | error e => exact failed
    | peerExists => exact he.elim
    | getPeer => exact he.elim
    | getPeerById => exact he.elim
    | listPeerChanges => exact he.elim
    | deletePeerChange => exact he.elim
    | nextPeerId => exact he.elim
    | reservePeer => exact he.elim
    | listenPortInUse => exact he.elim
    | listManagedInterfaces => exact he.elim
    | _ =>
      refine ⟨fun n hn => touches n hn (Eq.trans (Eq.symm hn) he), fun r => ?_⟩
      cases r with
      | ok u => exact goesOn _
      | error e => exact failed
  | lock l => cases l <;> first | exact he.elim | exact ⟨trivial, fun _ => h⟩
  | unlock l => cases l <;> first | exact he.elim | exact ⟨trivial, fun _ => h⟩
  | resolveEndpoint text =>
    refine ⟨trivial, fun r => ?_⟩
    cases r with
    | ok address => exact h
    | error e => exact failed

lemma follows_owing {x : Manager α} (request : IsRequest op) (name : p.ifaceName = wgpName p.peerId)
    (h : Owing op asn peerName p m) (hx : Calls (OnPeer p W) x.run) :
    Follows hands x.run m fun m' _ => Holding op asn peerName m' :=
  (Follows.of_kept (I := Owing op asn peerName p) h (hx.mono fun _ he _ hm =>
    ⟨(hm.call request name he).1, fun r _ => (hm.call request name he).2 r⟩)).mono
      fun _ _ hm => hm.toHolding

/-- A guarded request ends released, if its body ends with the lock. -/
lemma follows_guarded {x : Manager α} (hm : m = .start op) (request : IsRequest op)
    (inside : ∀ m, Holding op asn peerName m →
      Follows hands x.run m fun m' _ => Holding op asn peerName m') :
    Follows hands (withLock (.peer asn peerName) x).run m fun m' _ => Ended op m' := by
  subst hm
  refine follows_withLock ⟨rfl, rfl, fun h => absurd h request.listener⟩ fun _ => ?_
  exact (inside _ ⟨rfl, rfl, rfl, rfl⟩).mono fun _ _ h => ⟨⟨h.pair, .inl h.idle⟩, fun _ => h.released⟩

/-- Reads and draws before the request has recorded anything. -/
lemma Holding.call (h : Holding op asn peerName m) {c : Io}
    (hc : (∃ port, c = .listenPortInUse port) ∨ c = .peerExists asn peerName ∨ c = .nextPeerId) :
    handAllowed m (.io c) ∧ ∀ r, Holding op asn peerName (handNext m (.io c) r) := by
  have failed : Holding op asn peerName m.failed := by rwa [failed_of_idle h.idle]
  have goesOn : Holding op asn peerName (m.goesOn c) := by rwa [goesOn_of_idle h.idle]
  rcases hc with ⟨port, rfl⟩ | rfl | rfl <;> refine ⟨fun _ hn => hn.elim, fun r => ?_⟩ <;> cases r <;>
    assumption

lemma Holding.reserve (request : IsRequest op) (h : Holding op asn peerName m) (test : Bool)
    (hp : p.pair = (asn, peerName)) :
    handAllowed m (.io (.reservePeer p test)) ∧ ∀ r,
      Holding op asn peerName (handNext m (.io (.reservePeer p test)) r) ∧
      (r = .ok true → test = false →
        Owing op asn peerName p (handNext m (.io (.reservePeer p test)) r)) := by
  have failed : Holding op asn peerName m.failed := by rwa [failed_of_idle h.idle]
  have goesOn : ∀ c, Holding op asn peerName (m.goesOn c) := fun c => by rwa [goesOn_of_idle h.idle]
  refine ⟨⟨by rw [h.pair, hp], h.op_eq ▸ request.listener⟩, fun r => ?_⟩
  rcases r with e | (_ | _)
  · exact ⟨by cases test <;> exact failed, fun hr => by cases hr⟩
  · exact ⟨by cases test <;> exact goesOn _, fun hr => by cases hr⟩
  · cases test with
    | true => exact ⟨goesOn _, fun _ ht => by cases ht⟩
    | false =>
      have owing : Owing op asn peerName p { m with row := some p.peerId, owes := true } :=
        ⟨⟨h.op_eq, h.pair, h.idle, h.changes⟩, rfl, rfl⟩
      exact ⟨owing.toHolding, fun _ _ => owing⟩

lemma follows_reservePeer {endpoint : Option String} {mtu : UInt16} (request : IsRequest op)
    (h : Holding op asn peerName m) :
    Follows hands (reservePeer cfg asn peerName pubkey endpoint linkLocal mtu).run m
      fun m' result => Holding op asn peerName m' ∧ ∀ peer, result = .ok peer →
        asn ≠ cfg.localAsn → peer.ifaceName = wgpName peer.peerId ∧ Owing op asn peerName peer m' := by
  have reads : ∀ c, (c = .peerExists asn peerName ∨ ∃ port, c = .listenPortInUse port) → ∀ m,
      Holding op asn peerName m → handAllowed m (.io c) ∧
        ∀ r, handAnswer m (.io c) r → Holding op asn peerName (handNext m (.io c) r) := by
    intro c hc m hm
    have := hm.call (c := c) (by tauto)
    exact ⟨this.1, fun r _ => this.2 r⟩
  refine Follows.run_bind (x := allocatePeerId) (B := fun m' _ => Holding op asn peerName m') ?_
    (fun m' peerId hm' => ?_) fun _ _ hm' => ⟨hm', fun _ he => by cases he⟩
  · have draw := h.call (c := .nextPeerId) (.inr (.inr rfl))
    refine follows_io_bind draw.1 (fun n _ => ?_) fun e _ => draw.2 (.error e)
    split
    · exact follows_return (draw.2 (.ok n))
    · exact follows_throw (draw.2 (.ok n))
  · generalize List.range 10000 = increments
    refine (follows_reserveFrom (D := hands) (B := fun m peer => Holding op asn peerName m ∧
      (asn ≠ cfg.localAsn → peer.ifaceName = wgpName peer.peerId ∧ Owing op asn peerName peer m))
      hm' reads fun port m hm => ?_).mono ?_
    · have reserve := hm.reserve request (p := buildPeer peerId asn peerName pubkey endpoint
        (linkLocal.getD (Ipv6.asnLinkLocal cfg.localAsn, Ipv6.asnLinkLocal asn)) port mtu)
        (decide (asn = cfg.localAsn)) rfl
      refine ⟨reserve.1, fun r _ => ⟨fun hr => ⟨(reserve.2 r).1, fun hne => ⟨rfl, ?_⟩⟩,
        fun _ => (reserve.2 r).1⟩⟩
      exact (reserve.2 r).2 hr (by simpa using hne)
    · rintro m' result ⟨hok, herr⟩
      cases result with
      | ok peer =>
        refine ⟨(hok peer rfl).1, fun p he => ?_⟩
        cases he
        exact (hok peer rfl).2
      | error e => exact ⟨herr e rfl, fun _ he => by cases he⟩

lemma follows_createPeer {endpoint : Option String} {mtu : Option UInt16} (hm : m = .start op)
    (request : IsRequest op) :
    Follows hands (createPeer cfg asn peerName pubkey endpoint linkLocal mtu).run m
      fun m' _ => Ended op m' := by
  refine follows_guarded hm request fun m h => ?_
  have exist := h.call (c := .peerExists asn peerName) (.inr (.inl rfl))
  refine follows_io_bind exist.1 (fun taken _ => ?_) fun e _ => exist.2 (.error e)
  cases taken with
  | true => exact follows_throw (exist.2 (.ok true))
  | false =>
    refine Follows.run_bind (B := fun m' result => Holding op asn peerName m' ∧
      ∀ peer : Peer, result = .ok peer → asn ≠ cfg.localAsn →
        peer.ifaceName = wgpName peer.peerId ∧ Owing op asn peerName peer m') ?_
      (fun m' peer hm' => ?_) fun _ _ hm' => hm'.1
    · refine follows_withLock trivial fun _ => ?_
      exact (follows_reservePeer request (exist.2 (.ok false))).mono
        fun _ _ hm' => ⟨trivial, fun _ => hm'⟩
    · split
      · exact follows_return hm'.1
      · rename_i hne
        obtain ⟨name, owing⟩ := hm'.2 peer rfl hne
        exact follows_owing request name owing (calls_provision (W := fun _ => False) asn)

/-- A change of a row. -/
lemma Holding.record (h : Holding op asn peerName m) {c : Io}
    (hc : (∃ q, c = .updatePeerDesired q ∧ q.peerId = p.peerId) ∨
      ∃ status, c = .setStatus p.peerId status) :
    handAllowed m (.io c) ∧ ∀ r : Except PeerError c.Value,
      Holding op asn peerName (handNext m (.io c) r) := by
  have failed : Holding op asn peerName m.failed := by rwa [failed_of_idle h.idle]
  have goesOn : ∀ c, Holding op asn peerName (m.goesOn c) := fun c => by rwa [goesOn_of_idle h.idle]
  rcases hc with ⟨q, rfl, hq⟩ | ⟨status, rfl⟩ <;>
    refine ⟨onHead_of_idle h.idle, fun r => ?_⟩ <;> rcases r with e | (_ | _) <;>
    first | exact failed | exact goesOn _ | exact h.records _

/-- The row of the pair is read, and what follows is done with it, or the pair has none. -/
lemma follows_readRow {f : Peer → Manager Peer} (request : IsRequest op)
    (h : Holding op asn peerName m)
    (found : ∀ peer m, Holding op asn peerName m → m.row = some peer.peerId →
      peer.ifaceName = wgpName peer.peerId →
      Follows hands (f peer).run m fun m' _ => Holding op asn peerName m') :
    Follows hands (io (.getPeer asn peerName) >>= fun row =>
      orNotFound asn peerName row >>= f : Manager Peer).run m
        fun m' _ => Holding op asn peerName m' := by
  have failed : Holding op asn peerName m.failed := by rwa [failed_of_idle h.idle]
  refine follows_io_bind ⟨h.pair, h.op_eq ▸ request.listener⟩ (fun row answered => ?_)
    fun e _ => failed
  cases row with
  | none =>
    refine follows_throw ?_
    change Holding op asn peerName (m.goesOn _)
    rwa [goesOn_of_idle h.idle]
  | some peer =>
    have read : Holding op asn peerName { m with row := some peer.peerId, owes := false } :=
      ⟨h.op_eq, h.pair, h.idle, h.changes⟩
    exact Follows.run_bind (x := orNotFound asn peerName (some peer))
      (B := fun m' result => result = .ok peer ∧
        m' = { m with row := some peer.peerId, owes := false }) ⟨rfl, rfl⟩
      (fun m' p hp => by
        obtain ⟨hpeer, rfl⟩ := hp
        cases hpeer
        exact found peer _ read rfl answered) fun _ _ he => by cases he.1

/-- The row was written. -/
lemma Holding.owing (h : Holding op asn peerName m) (hrow : m.row = some p.peerId) :
    Owing op asn peerName p (m.records p.peerId) :=
  ⟨h.records _, by simp [Hand.records, hrow], hrow⟩

lemma follows_updatePeer {endpoint : Option (Option String)} {mtu : Option (Option UInt16)}
    (hm : m = .start op) (request : IsRequest op) :
    Follows hands (updatePeer cfg asn peerName pubkey endpoint linkLocal mtu).run m
      fun m' _ => Ended op m' := by
  refine follows_guarded hm request fun m h => follows_readRow request h fun old m h hrow name => ?_
  split
  · exact follows_throw h
  · have record := h.record (p := old) (c := .updatePeerDesired
      (desiredPeer cfg asn pubkey endpoint linkLocal mtu old)) (.inl ⟨_, rfl, rfl⟩)
    refine follows_io_bind record.1 (fun stored _ => ?_) fun e _ => record.2 (.error e)
    cases stored with
    | false => exact follows_throw (record.2 (.ok false))
    | true =>
      have calls : Calls (OnPeer old fun _ => True) (reprovision asn peerName old
          (desiredPeer cfg asn pubkey endpoint linkLocal mtu old)).run :=
        calls_reprovision asn peerName trivial rfl rfl
      exact follows_owing request name (h.owing hrow) calls

lemma follows_deletePeer (hm : m = .start op) (request : IsRequest op) :
    Follows hands (deletePeer asn peerName).run m fun m' _ => Ended op m' := by
  refine follows_guarded hm request fun m h => follows_readRow request h fun peer m h hrow name => ?_
  have record := h.record (p := peer) (c := .setStatus peer.peerId .deleting) (.inr ⟨_, rfl⟩)
  refine follows_io_bind record.1 (fun marked _ => ?_) fun e _ => record.2 (.error e)
  cases marked with
  | false => exact follows_throw (record.2 (.ok false))
  | true =>
    exact follows_owing request name (h.owing hrow)
      (calls_dismantle (W := fun _ => True) asn peerName)

end Requests

section Listener
variable {c : PeerChange} {rest : List PeerChange} {A B : Progress → Prop} {row : Option Peer}
  {stage : Stage}

/-- The listener holds the lock of the pair of the event it works on. -/
structure Working (c : PeerChange) (rest : List PeerChange) (m : Hand) : Prop where
  op_eq : m.op = .syncPendingPeerChanges
  pair : m.pair = some c.peer.pair
  changes : m.changes = c :: rest

/-- A part of the work on the event ended: well with this progress, badly with none. -/
structure Worked (c : PeerChange) (rest : List PeerChange) (A : Progress → Prop) (m : Hand)
    (result : Except PeerError α) : Prop extends Working c rest m where
  ok : ∀ v, result = .ok v → A m.progress
  error : ∀ e, result = .error e → m.progress = .idle

lemma Working.failed {error : PeerError} (h : Working c rest m) :
    Worked c rest A m.failed (.error error : Except PeerError α) :=
  ⟨⟨h.op_eq, h.pair, h.changes⟩, fun _ he => (by cases he), fun _ _ => rfl⟩

lemma Working.goesOn (h : Working c rest m) (d : Io) : Working c rest (m.goesOn d) :=
  ⟨h.op_eq, h.pair, h.changes⟩

lemma Working.ok {v : α} (h : Working c rest m) (hp : A m.progress) :
    Worked c rest A m (.ok v : Except PeerError α) :=
  ⟨h, fun _ _ => hp, fun _ he => by cases he⟩

lemma Worked.bind {x : Manager α} {f : α → Manager β}
    (hx : Follows hands x.run m (Worked c rest A))
    (hf : ∀ a m, Working c rest m → A m.progress → Follows hands (f a).run m (Worked c rest B)) :
    Follows hands (x >>= f).run m (Worked c rest B) :=
  Follows.run_bind hx (fun m' a h => hf a m' h.toWorking (h.ok a rfl))
    fun _ e h => ⟨h.toWorking, fun _ he => (by cases he), fun _ _ => h.error e rfl⟩

/-- The listener makes the next call on the interface. -/
lemma worked_touch {d : Io} (h : Working c rest m) (hp : m.progress = .working row stage)
    (touches : ∃ n, OnIface n d) (serves : Serves c.peer row stage d) :
    Follows hands (io d).run m (Worked c rest (· = .working row (stage.after d))) := by
  obtain ⟨n, hn⟩ := touches
  have allowed : ∀ n, OnIface n d → Touches m n d := fun _ _ =>
    .inr (.inl ⟨row, stage, c, rest, hp, h.changes, serves⟩)
  have next : (m.goesOn d).progress = .working row (stage.after d) := by rw [Hand.goesOn, hp]
  cases serves <;> exact follows_io allowed fun r _ => by
    cases r with
    | ok v => exact (h.goesOn _).ok next
    | error e => exact h.failed

/-- The calls on the shared state and its reads. -/
def Shared : Io → Prop
  | .listPeers | .runNftBatch _ | .syncBirdFiles .. => True
  | _ => False

lemma worked_shared {d : Io} (hd : Shared d) (h : Working c rest m)
    (hp : m.progress = .working row stage) :
    Follows hands (io d).run m (Worked c rest (· = .working row stage)) := by
  have next : ∀ d, stage.after d = stage → (m.goesOn d).progress = .working row stage := fun d hs => by
    rw [Hand.goesOn, hp]
    exact congrArg (Progress.working row) hs
  have lists : ∀ peers, Working c rest (m.lists peers) ∧
      (m.lists peers).progress = .working row stage := fun peers => by
    rw [lists_of_ne (by simp [h.op_eq])]
    exact ⟨h, hp⟩
  cases d <;> first
    | exact hd.elim
    | exact follows_io (fun _ hn => hn.elim) fun r _ => by
        cases r with
        | ok v => first | exact (lists v).1.ok (lists v).2 | exact (h.goesOn _).ok (next _ rfl)
        | error e => exact h.failed

lemma worked_guarded {l : Lock} (hl : ∀ asn peerName, l ≠ .peer asn peerName) {x : Manager α}
    (hx : Follows hands x.run m (Worked c rest A)) :
    Follows hands (withLock l x).run m (Worked c rest A) := by
  cases l with
  | peer asn peerName => exact absurd rfl (hl asn peerName)
  | _ => exact follows_withLock trivial fun _ => hx.mono fun _ _ h => ⟨trivial, fun _ => h⟩

lemma worked_syncBirdConfigs (h : Working c rest m) (hp : m.progress = .working row stage) :
    Follows hands syncBirdConfigs.run m (Worked c rest (· = .working row stage)) :=
  Worked.bind (worked_shared trivial h hp) fun _ _ h hp =>
    worked_guarded (by simp) (worked_shared trivial h hp)

lemma worked_syncNftPorts (h : Working c rest m) (hp : m.progress = .working row stage) :
    Follows hands syncNftPorts.run m (Worked c rest (· = .working row stage)) :=
  Worked.bind (worked_shared trivial h hp) fun _ _ h hp =>
    worked_guarded (by simp) (worked_shared trivial h hp)

lemma worked_applyPeer {p : Peer} (enabled : p.enabled = true) (h : Working c rest m)
    (hp : m.progress = .working (some p) .untouched) :
    Follows hands (applyPeer p).run m (Worked c rest (· = .working (some p) .addressed)) := by
  refine Worked.bind (A := (· = .working (some p) .addressed)) ?_ fun _ m h hp =>
    worked_syncBirdConfigs h hp
  refine Worked.bind (worked_touch h hp ⟨_, rfl⟩ (.ensure enabled)) fun _ m h hp => ?_
  have resolved : Follows hands (resolveOptional p.endpoint).run m fun m' r =>
      Worked c rest (· = .working (some p) .linked) m' r ∧
        ∀ address, r = .ok address → address.isSome = p.endpoint.isSome :=
    follows_resolveOptional (fun address hs => ⟨h.ok hp, fun _ he => by cases he; exact hs⟩)
      fun _ => ⟨h.failed, fun _ he => by cases he⟩
  refine Follows.run_bind resolved (fun m address hm => ?_) fun m e hm =>
    ⟨hm.1.toWorking, fun _ he => (by cases he), fun _ _ => hm.1.error e rfl⟩
  obtain ⟨hw, hsome⟩ := hm
  refine Worked.bind (worked_touch hw.toWorking (hw.ok _ rfl) ⟨_, rfl⟩
    (.configure (hsome address rfl))) fun _ m h hp => ?_
  exact worked_touch h hp ⟨_, rfl⟩ .address

lemma Working.records {peerId : UInt32} (h : Working c rest m) (hp : m.progress = .working row stage) :
    Worked c rest (· = .working row .recorded) (m.records peerId) (.ok () : Except PeerError Unit) := by
  have next : (m.records peerId).progress = .working row .recorded := by rw [Hand.records, hp]
  exact Working.ok ⟨h.op_eq, h.pair, h.changes⟩ next

lemma Working.onHead {peerId : UInt32} (h : Working c rest m) (hid : peerId = c.peer.peerId) :
    OnHead m peerId := fun _ _ _ => ⟨c, rest, h.changes, hid.symm⟩

/-- The row of the event is written, or the event stays. -/
lemma worked_setStatus {peerId : UInt32} {error : PeerError} (h : Working c rest m)
    (hp : m.progress = .working row stage) (hid : peerId = c.peer.peerId) :
    Follows hands (io (.setStatus peerId .active) >>= fun stored =>
      if stored then return () else throw error : Manager Unit).run m
        (Worked c rest (· = .working row .recorded)) := by
  refine follows_io_bind (h.onHead hid) (fun stored _ => ?_) fun e _ => h.failed
  cases stored with
  | true => exact follows_return (h.records hp)
  | false => exact follows_throw h.failed

lemma worked_deletePeer {peerId : UInt32} {error : PeerError} (h : Working c rest m)
    (hp : m.progress = .working row stage) (hid : peerId = c.peer.peerId) :
    Follows hands (io (.deletePeer peerId) >>= fun deleted =>
      if deleted then return () else throw error : Manager Unit).run m
        (Worked c rest (· = .working row .recorded)) := by
  refine follows_io_bind (h.onHead hid) (fun deleted _ => ?_) fun e _ => h.failed
  cases deleted with
  | true => exact follows_return (h.records hp)
  | false => exact follows_throw h.failed

lemma worked_removeExternalState {p : Peer} (h : Working c rest m)
    (hp : m.progress = .working row .untouched)
    (serves : Serves c.peer row .untouched (.deleteInterface p.ifaceName)) :
    Follows hands (removeExternalState p).run m (Worked c rest (· = .working row .removed)) :=
  Worked.bind (worked_syncBirdConfigs h hp) fun _ _ h hp => worked_touch h hp ⟨_, rfl⟩ serves

/-- The pass has settled the row. -/
def Settles (row : Option Peer) (progress : Progress) : Prop :=
  ∃ stage, progress = .working row stage ∧ Complete row stage

lemma worked_settles {x : Manager α} (complete : Complete row stage)
    (h : Follows hands x.run m (Worked c rest (· = .working row stage))) :
    Follows hands x.run m (Worked c rest (Settles row)) :=
  h.mono fun _ _ h => ⟨h.toWorking, fun v hv => ⟨stage, h.ok v hv, complete⟩, h.error⟩

lemma worked_settleRow (h : Working c rest m) (hp : m.progress = .working row .untouched)
    (head : ∀ p, row = some p → p.peerId = c.peer.peerId) :
    Follows hands (settleRow c.peer row).run m (Worked c rest (Settles row)) := by
  cases row with
  | none =>
    have complete : Complete none .removed := trivial
    exact worked_settles complete (worked_removeExternalState h hp .removeOld)
  | some p =>
    simp only [settleRow]
    split
    · rename_i hs
      have enabled : p.enabled = true := by simpa [Peer.enabled] using hs
      refine Worked.bind (worked_applyPeer enabled h hp) fun _ m h hp => ?_
      split
      · have complete : Complete (some p) .recorded := trivial
        exact worked_settles complete (worked_setStatus h hp (head p rfl))
      · rename_i active
        exact follows_return (h.ok ⟨_, hp, not_not.mp active⟩)
    · rename_i hs
      have disabled : p.enabled = false := by simpa [Peer.enabled, Classical.or_iff_not_imp_left] using hs
      split
      · have complete : Complete (some p) .recorded := trivial
        exact worked_settles complete <|
          Worked.bind (worked_removeExternalState h hp (.remove disabled)) fun _ m h hp =>
            worked_deletePeer h hp (head p rfl)
      · rename_i hd
        have status : p.status = .disabled := by
          by_contra hne
          exact hs ⟨hd, hne⟩
        have complete : Complete (some p) .removed := status
        exact worked_settles complete (worked_removeExternalState h hp (.remove disabled))

/-- Between two events the listener has these left. -/
structure Between (rest : List PeerChange) (m : Hand) : Prop where
  op_eq : m.op = .syncPendingPeerChanges
  pair : m.pair = none
  idle : m.progress = .idle
  changes : m.changes = rest

/-- The lock is released with the event still to be removed if the work on it went well. -/
lemma follows_applyPeerChange (h : Between (c :: rest) m) :
    Follows hands (applyPeerChange c).run m fun m' result =>
      (result = .ok () → m'.op = .syncPendingPeerChanges ∧ m'.pair = none ∧ m'.progress = .finished ∧
        m'.changes = c :: rest) ∧ ∀ e, result = .error e → Between rest m' := by
  refine follows_withLock ⟨h.pair, h.idle, fun _ => ⟨c, rest, h.changes, rfl⟩⟩ fun _ => ?_
  have start : Working c rest { m with pair := some c.peer.pair } := ⟨h.op_eq, rfl, h.changes⟩
  have body : Follows hands (io (.getPeerById c.peer.peerId) >>= fun row =>
      settleRow c.peer row >>= fun _ => syncNftPorts : Manager Unit).run
      { m with pair := some c.peer.pair }
      (Worked c rest fun progress => ∃ row, Settles row progress) := by
    refine follows_io_bind (fun _ => ⟨rfl, h.idle, c, rest, h.changes, rfl⟩) (fun row answered => ?_)
      fun e _ => start.failed
    have read : Hand.reads { m with pair := some c.peer.pair } row =
        { m with pair := some c.peer.pair, progress := .working row .untouched } := if_pos h.op_eq
    change Follows hands _ (Hand.reads { m with pair := some c.peer.pair } row) _
    rw [read]
    refine Worked.bind (worked_settleRow ⟨h.op_eq, rfl, h.changes⟩ rfl fun p hp => ?_)
      fun _ m h ⟨stage, hp, complete⟩ => ?_
    · subst hp
      exact answered.2
    · exact (worked_syncNftPorts h hp).mono fun _ _ hw =>
        ⟨hw.toWorking, fun v hv => ⟨row, stage, hw.ok v hv, complete⟩, hw.error⟩
  refine body.mono fun m' result hw => ?_
  cases result with
  | ok u =>
    obtain ⟨row, stage, hp, complete⟩ := hw.ok u rfl
    refine ⟨⟨hw.pair, .inr ⟨row, stage, hp, complete⟩⟩, fun _ => ⟨fun _ => ?_, fun e he => by cases he⟩⟩
    change m'.released.op = _ ∧ m'.released.pair = _ ∧ m'.released.progress = _ ∧
      m'.released.changes = _
    rw [Hand.released, hp]
    exact ⟨hw.op_eq, rfl, rfl, hw.changes⟩
  | error e =>
    refine ⟨⟨hw.pair, .inl (hw.error e rfl)⟩, fun _ => ⟨fun he => (by cases he), fun _ _ => ?_⟩⟩
    change Between rest m'.released
    rw [Hand.released, hw.error e rfl]
    exact ⟨hw.op_eq, rfl, rfl, by simp [hw.op_eq, hw.changes]⟩

lemma follows_processChanges {firstError : Option PeerError} {changes : List PeerChange}
    (h : Between changes m) :
    Follows hands (processChanges firstError changes).run m
      fun m' _ => Ended .syncPendingPeerChanges m' := by
  induction changes generalizing firstError m with
  | nil => cases firstError <;> exact ⟨h.op_eq, h.idle, fun _ => h.changes⟩
  | cons c rest ih =>
    refine Follows.run_bind (x := processChange c) (B := fun m' result => Between rest m' ∧
      ∀ e, result ≠ .error e) ?_ (fun m' _ h => ih h.1) fun _ e h => absurd rfl (h.2 e)
    refine follows_attempt_bind ((follows_applyPeerChange h).mono fun m result hr => ?_)
    cases result with
    | error e => exact follows_return ⟨hr.2 e rfl, by simp⟩
    | ok u =>
      obtain ⟨hop, hpair, hprogress, hchanges⟩ := hr.1 rfl
      refine follows_attempt_bind
        (follows_io ⟨hpair, hprogress, c, rest, hchanges, rfl⟩ fun gone _ => ?_)
      have next : Between rest { m with changes := m.changes.tail, progress := .idle } :=
        ⟨hop, hpair, rfl, by simp [hchanges]⟩
      cases gone <;> exact follows_return ⟨next, by simp⟩

lemma follows_syncPendingPeerChanges :
    Follows hands syncPendingPeerChanges.run (.start .syncPendingPeerChanges)
      fun m' _ => Ended .syncPendingPeerChanges m' :=
  follows_io_bind ⟨rfl, rfl, .inl rfl⟩ (fun _ _ => follows_processChanges ⟨rfl, rfl, rfl, rfl⟩)
    fun _ _ => ⟨rfl, rfl, fun _ => rfl⟩

end Listener

section Recovery
variable {peers : List Peer} {changes : List PeerChange} {pair : Option Pair}

/-- Recovery with its list of the rows. -/
def recovering (pair : Option Pair) (peers : List Peer) (changes : List PeerChange) : Hand :=
  ⟨.recover, pair, none, false, changes, .idle, some peers⟩

lemma recovering_released :
    (recovering pair peers changes).released = recovering none peers changes := by
  simp [recovering, Hand.released]

/-- A call after which recovery is where it was. -/
lemma recovering_io {c : Io} {Q : Hand → Except PeerError c.Value → Prop}
    (allowed : handAllowed (recovering pair peers changes) (.io c))
    (same : ∀ r, handNext (recovering pair peers changes) (.io c) r = recovering pair peers changes)
    (h : ∀ r, handAnswer (recovering pair peers changes) (.io c) r →
      Q (recovering pair peers changes) r) :
    Follows hands (io c).run (recovering pair peers changes) Q :=
  follows_io allowed fun r hr => by
    change Q (handNext (recovering pair peers changes) (.io c) r) r
    rw [same]
    exact h r hr

/-- A call on an interface as the list asks for. -/
lemma recovering_repairs {c : Io} {name : String} (hn : OnIface name c)
    (repairs : Repairs peers changes c) :
    Follows hands (io c).run (recovering pair peers changes)
      fun m' _ => m' = recovering pair peers changes := by
  cases c <;> first
    | exact hn.elim
    | exact recovering_io (fun _ _ => .inr (.inr ⟨peers, rfl, repairs⟩)) (fun r => by cases r <;> rfl)
        fun _ _ => rfl

lemma recovering_applyWireguard {p : Peer} (listed : p ∈ peers) (enabled : p.enabled = true) :
    Follows hands (applyWireguard p).run (recovering pair peers changes)
      fun m' _ => m' = recovering pair peers changes := by
  refine Follows.run_bind (recovering_repairs rfl (.ensure listed enabled)) (fun m _ hm => ?_)
    fun _ _ hm => hm
  subst hm
  refine follows_run_bind.mpr (follows_resolveOptional (fun address resolved => ?_) fun _ => rfl)
  refine Follows.run_bind (recovering_repairs rfl (.configure listed enabled resolved))
    (fun m _ hm => ?_) fun _ _ hm => hm
  subst hm
  exact recovering_repairs rfl (.address listed enabled)

lemma recovering_guarded {l : Lock} {x : Manager Unit}
    (h : ∀ pair, Follows hands x.run (recovering pair peers changes)
      fun m' _ => m' = recovering pair peers changes) :
    Follows hands (withLock l x).run (recovering none peers changes)
      fun m' _ => m' = recovering none peers changes := by
  cases l with
  | peer asn peerName =>
    refine follows_withLock ⟨rfl, rfl, fun he => by cases he⟩ fun _ => ?_
    refine (h (some (asn, peerName))).mono fun m' _ hm => ?_
    subst hm
    exact ⟨⟨rfl, .inl rfl⟩, fun _ => recovering_released⟩
  | _ => exact follows_withLock trivial fun _ => (h none).mono fun _ _ hm =>
      ⟨trivial, fun _ => hm⟩

/-- A row is written, or recovery ends. -/
lemma recovering_record {c : Io} {f : c.Value → Manager Unit} {I : Hand → Prop}
    (hc : (∃ peerId status, c = .setStatus peerId status) ∨ ∃ peerId, c = .deletePeer peerId)
    (h : ∀ v, Follows hands (f v).run (recovering pair peers changes) fun m' _ => I m')
    (failed : I (recovering pair peers changes)) :
    Follows hands (io c >>= f : Manager Unit).run (recovering pair peers changes) fun m' _ => I m' := by
  refine Follows.run_bind (B := fun m' _ => m' = recovering pair peers changes) ?_ (fun m v hm => ?_)
    fun m _ hm => hm ▸ failed
  · rcases hc with ⟨peerId, status, rfl⟩ | ⟨peerId, rfl⟩ <;>
      exact recovering_io (onHead_of_idle rfl) (fun r => by rcases r with e | (_ | _) <;> rfl)
        fun _ _ => rfl
  · subst hm
    exact h v

lemma recovering_removeDeleted {c : PeerChange} (queued : c ∈ changes) :
    Follows hands (removeDeleted c).run (recovering none peers changes)
      fun m' _ => m' = recovering none peers changes := by
  unfold removeDeleted
  split
  · refine Follows.run_bind (recovering_io (Q := fun m' _ => m' = recovering none peers changes)
      (fun he => by cases he) (fun r => by cases r <;> rfl) fun _ _ => rfl) (fun m row hm => ?_)
      fun _ _ hm => hm
    subst hm
    split
    · exact recovering_repairs rfl (.removeDeleted queued)
    · exact follows_return rfl
  · exact follows_return rfl

/-- The steps of a loop leave recovery where it was. -/
lemma recovering_forM {γ : Type} {xs : List γ} {f : γ → Manager Unit} {g : Unit → Manager Unit}
    {Q : Hand → Except PeerError Unit → Prop}
    (h : ∀ x ∈ xs, Follows hands (f x).run (recovering none peers changes)
      fun m' _ => m' = recovering none peers changes)
    (ok : Follows hands (g ()).run (recovering none peers changes) Q)
    (failed : ∀ e, Q (recovering none peers changes) (.error e)) :
    Follows hands (xs.forM f >>= g).run (recovering none peers changes) Q := by
  refine Follows.run_bind (B := fun m' _ => m' = recovering none peers changes)
    (Follows.forM rfl fun x hx m hm => ?_) (fun m _ hm => ?_) fun m e hm => hm ▸ failed e
  · subst hm
    exact h x hx
  · subst hm
    exact ok

lemma follows_recover :
    Follows hands recover.run (.start .recover) fun m' _ => Ended .recover m' := by
  have ended : ∀ peers changes, Ended .recover (recovering none peers changes) := fun _ _ =>
    ⟨rfl, rfl, fun h => absurd rfl h⟩
  refine follows_io_bind (fun _ hn => hn.elim) (fun peers answered => ?_) fun _ _ =>
    ⟨rfl, rfl, fun h => absurd rfl h⟩
  obtain ⟨names, ids⟩ := answered
  change Follows hands _ (recovering none peers []) _
  have wired : ∀ p ∈ peers.filter Peer.enabled, p ∈ peers ∧ p.enabled = true := fun p hp =>
    List.mem_filter.mp hp
  refine recovering_forM (fun p hp => recovering_applyWireguard (wired p hp).1 (wired p hp).2) ?_
    fun _ => ended _ _
  refine Follows.run_bind (recovering_guarded fun _ => recovering_io (fun _ hn => hn.elim)
    (fun r => by cases r <;> rfl) fun _ _ => rfl) (fun m _ hm => ?_) fun _ _ hm => hm ▸ ended _ _
  subst hm
  refine Follows.run_bind (recovering_guarded fun _ => recovering_io (fun _ hn => hn.elim)
    (fun r => by cases r <;> rfl) fun _ _ => rfl) (fun m _ hm => ?_) fun _ _ hm => hm ▸ ended _ _
  subst hm
  refine recovering_forM (fun p hp => recovering_guarded fun _ => recovering_repairs rfl
    (.remove fun q hq enabled he => ?_)) ?_ fun _ => ended _ _
  · obtain ⟨listed, disabled⟩ := List.mem_filter.mp hp
    rw [names q hq, names p listed, wgpName_inj] at he
    obtain rfl := List.inj_on_of_nodup_map ids hq listed he
    simp [enabled] at disabled
  refine Follows.run_bind (recovering_io (Q := fun m' _ => m' = recovering none peers [])
    (fun _ hn => hn.elim) (fun r => by cases r <;> rfl) fun _ _ => rfl) (fun m managed hm => ?_)
    fun _ _ hm => hm ▸ ended _ _
  subst hm
  refine recovering_forM (fun name _ => ?_) ?_ fun _ => ended _ _
  · unfold removeUnlessDesired
    split
    · exact follows_return rfl
    · rename_i undesired
      exact recovering_repairs rfl (.remove fun q hq enabled he => undesired
        (List.mem_map.mpr ⟨q, List.mem_filter.mpr ⟨hq, enabled⟩, he⟩))
  refine follows_io_bind ⟨rfl, rfl, .inr rfl⟩ (fun changes _ => ?_) fun _ _ => ended _ _
  change Follows hands _ (recovering none peers changes) _
  refine recovering_forM (fun c hc => recovering_removeDeleted hc) ?_ fun _ => ended _ _
  refine recovering_forM (fun p _ => recovering_record (.inr ⟨_, rfl⟩) (fun deleted => ?_) rfl) ?_
    fun _ => ended _ _
  · cases deleted
    · exact follows_throw rfl
    · exact follows_return rfl
  · refine (Follows.forM (I := fun m' => m' = recovering none peers changes) rfl
      fun p _ m hm => ?_).mono fun _ _ hm => hm ▸ ended _ _
    subst hm
    refine recovering_guarded fun _ => recovering_record (.inl ⟨_, _, rfl⟩) (fun stored => ?_) rfl
    cases stored
    · exact follows_throw rfl
    · exact follows_return rfl

end Recovery

/-- Every task keeps to the discipline. -/
theorem follows_program : Follows hands (program cfg op) (.start op) fun m _ => Ended op m := by
  cases op with
  | createPeer => exact follows_answerPeer (follows_createPeer rfl ⟨by simp, by simp⟩)
  | updatePeer => exact follows_answerPeer (follows_updatePeer rfl ⟨by simp, by simp⟩)
  | deletePeer => exact follows_answerPeer (follows_deletePeer rfl ⟨by simp, by simp⟩)
  | syncPendingPeerChanges => exact follows_answerNone follows_syncPendingPeerChanges
  | recover => exact follows_answerNone follows_recover
  | syncNftPorts =>
    refine follows_answerNone ?_
    refine follows_io_bind (fun _ hn => hn.elim) (fun peers _ => ?_) fun _ _ => ⟨rfl, rfl, fun _ => rfl⟩
    refine follows_withLock trivial fun _ => follows_io (fun _ hn => hn.elim) fun r _ =>
      ⟨trivial, fun _ => ?_⟩
    cases r <;> exact ⟨rfl, rfl, fun _ => rfl⟩

end Autopeer.InterfaceTurns
