import Autopeer.ManagerSystem

/-! Which calls each part of the manager can make, on whatever path. -/
namespace Autopeer.ManagerFootprints
open PeerData ProgramTree ManagerWorld ManagerPrograms ManagerSystem

variable {P : Call → Prop} {α β : Type}

lemma calls_io {c : Io} (h : P (.io c)) : Calls P (io c).run := ⟨h, fun _ => trivial⟩

lemma calls_return (a : α) : Calls P (return a : Manager α).run := trivial

lemma calls_throw (error : PeerError) : Calls P (throw error : Manager α).run := trivial

lemma calls_withLock {l : Lock} {body : Manager α} (hl : P (.lock l)) (hu : P (.unlock l))
    (hb : Calls P body.run) : Calls P (withLock l body).run :=
  ⟨hl, fun _ => hb.bind fun _ => ⟨hu, fun _ => trivial⟩⟩

lemma calls_attempt_bind {x : Manager α} {f : Except PeerError α → Manager β}
    (hx : Calls P x.run) (hf : ∀ r, Calls P (f r).run) : Calls P (attempt x >>= f).run :=
  Calls.run_bind (Calls.attempt hx) hf

section Parts

/-- The calls of `sync_nft_ports`. -/
inductive NftCall : Call → Prop
  | list : NftCall (.io .listPeers)
  | lock : NftCall (.lock .nft)
  | batch (ports : List UInt16) : NftCall (.io (.runNftBatch ports))
  | unlock : NftCall (.unlock .nft)

/-- The calls of `sync_bird_configs`. -/
inductive BirdCall : Call → Prop
  | list : BirdCall (.io .listPeers)
  | lock : BirdCall (.lock .bird)
  | sync (peers : List Peer) (forceReload : Bool) : BirdCall (.io (.syncBirdFiles peers forceReload))
  | unlock : BirdCall (.unlock .bird)

/-- The calls of `apply_wireguard`. -/
inductive WireguardCall (p : Peer) : Call → Prop
  | ensure : WireguardCall p (.io (.ensureWgInterface p.ifaceName p.peerId p.mtu))
  | resolve (endpoint : String) : WireguardCall p (.resolveEndpoint endpoint)
  | configure (endpoint : Option SocketAddr) :
      WireguardCall p (.io (.configurePeer p.ifaceName p.listenPort p.pubkey endpoint))
  | address : WireguardCall p (.io (.configureLocalAddress p.ifaceName p.localLlIp))

lemma calls_syncNftPorts (nft : ∀ e, NftCall e → P e) : Calls P syncNftPorts.run :=
  Calls.run_bind (calls_io (nft _ .list)) fun _ =>
    calls_withLock (nft _ .lock) (nft _ .unlock) (calls_io (nft _ (.batch _)))

lemma calls_syncBirdConfigs (bird : ∀ e, BirdCall e → P e) : Calls P syncBirdConfigs.run :=
  Calls.run_bind (calls_io (bird _ .list)) fun _ =>
    calls_withLock (bird _ .lock) (bird _ .unlock) (calls_io (bird _ (.sync _ _)))

lemma calls_applyWireguard {q : Peer} (wire : ∀ e, WireguardCall q e → P e) :
    Calls P (applyWireguard q).run := by
  refine Calls.run_bind (calls_io (wire _ .ensure)) fun _ => Calls.run_bind ?_ fun _ =>
    Calls.run_bind (calls_io (wire _ (.configure _))) fun _ => calls_io (wire _ .address)
  cases q.endpoint with
  | none => exact calls_return _
  | some endpoint =>
    exact Calls.run_bind ⟨wire _ (.resolve _), fun _ => trivial⟩ fun _ => calls_return _

lemma calls_applyPeer {q : Peer} (wire : ∀ e, WireguardCall q e → P e)
    (bird : ∀ e, BirdCall e → P e) : Calls P (applyPeer q).run :=
  Calls.run_bind (calls_applyWireguard wire) fun _ => calls_syncBirdConfigs bird

lemma calls_removeExternalState {q : Peer} (bird : ∀ e, BirdCall e → P e)
    (drop : P (.io (.deleteInterface q.ifaceName))) : Calls P (removeExternalState q).run :=
  Calls.run_bind (calls_syncBirdConfigs bird) fun _ => calls_io drop

end Parts

/-- The calls by which an operation works on the row, the interface and the shared state of one
peer; `W` holds of the rows it may store. -/
def OnPeer (p : Peer) (W : Peer → Prop) : Call → Prop
  | .lock .nft | .unlock .nft | .lock .bird | .unlock .bird => True
  | .resolveEndpoint _ => True
  | .io .listPeers | .io (.runNftBatch _) | .io (.syncBirdFiles _ _) => True
  | .io (.updatePeerDesired q) => W q
  | .io (.setStatus peerId _) | .io (.deletePeer peerId) => peerId = p.peerId
  | .io (.ensureWgInterface ifaceName _ _) | .io (.configurePeer ifaceName _ _ _)
  | .io (.configureLocalAddress ifaceName _) | .io (.deleteInterface ifaceName) =>
    ifaceName = p.ifaceName
  | _ => False

variable {p : Peer} {W : Peer → Prop}

lemma NftCall.onPeer {e : Call} (h : NftCall e) : OnPeer p W e := by cases h <;> trivial

lemma BirdCall.onPeer {e : Call} (h : BirdCall e) : OnPeer p W e := by cases h <;> trivial

lemma WireguardCall.onPeer {q : Peer} (hq : q.ifaceName = p.ifaceName) {e : Call}
    (h : WireguardCall q e) : OnPeer p W e := by cases h <;> first | exact hq | trivial

lemma onPeer_syncNftPorts : Calls (OnPeer p W) syncNftPorts.run :=
  calls_syncNftPorts fun _ => NftCall.onPeer

lemma onPeer_applyWireguard {q : Peer} (hq : q.ifaceName = p.ifaceName) :
    Calls (OnPeer p W) (applyWireguard q).run :=
  calls_applyWireguard fun _ => WireguardCall.onPeer hq

lemma onPeer_applyPeer {q : Peer} (hq : q.ifaceName = p.ifaceName) :
    Calls (OnPeer p W) (applyPeer q).run :=
  calls_applyPeer (fun _ => WireguardCall.onPeer hq) fun _ => BirdCall.onPeer

lemma onPeer_removeExternalState : Calls (OnPeer p W) (removeExternalState p).run :=
  calls_removeExternalState (fun _ => BirdCall.onPeer) rfl

lemma calls_compensateFailedCreate : Calls (OnPeer p W) (compensateFailedCreate p).run := by
  refine calls_attempt_bind (calls_io rfl) fun _ => ?_
  refine calls_attempt_bind onPeer_removeExternalState fun r => ?_
  cases r with
  | ok _ =>
    refine calls_attempt_bind (calls_io rfl) fun _ => ?_
    exact calls_attempt_bind onPeer_syncNftPorts fun _ => calls_return _
  | error _ => exact calls_attempt_bind onPeer_syncNftPorts fun _ => calls_return _

lemma calls_compensateFailedUpdate (hp : W p) :
    Calls (OnPeer p W) (compensateFailedUpdate p).run := by
  refine calls_attempt_bind (calls_io hp) fun r => ?_
  cases r with
  | error _ => exact calls_return _
  | ok _ =>
    refine calls_attempt_bind (onPeer_applyPeer rfl) fun r => ?_
    cases r with
    | error _ => exact calls_return _
    | ok _ => exact calls_attempt_bind (calls_io rfl) fun _ => calls_return _

lemma calls_provision (asn : UInt32) : Calls (OnPeer p W) (provision asn p).run := by
  have undo : ∀ error, Calls (OnPeer p W)
      (compensateFailedCreate p >>= fun _ => throw error : Manager Peer).run := fun error =>
    Calls.run_bind calls_compensateFailedCreate fun _ => calls_throw error
  refine calls_attempt_bind (onPeer_applyPeer rfl) fun r => ?_
  cases r with
  | error error => exact undo error
  | ok _ =>
    refine calls_attempt_bind onPeer_syncNftPorts fun r => ?_
    cases r with
    | error error => exact undo error
    | ok _ =>
      refine calls_attempt_bind (calls_io rfl) fun r => ?_
      match r with
      | .ok true => exact calls_return _
      | .ok false => exact undo _
      | .error error => exact undo error

lemma calls_reprovision (asn : UInt32) (peerName : String) {q : Peer} (hp : W p)
    (hid : q.peerId = p.peerId) (hq : q.ifaceName = p.ifaceName) :
    Calls (OnPeer p W) (reprovision asn peerName p q).run := by
  refine calls_attempt_bind (onPeer_applyPeer hq) fun r => ?_
  cases r with
  | error error =>
    exact Calls.run_bind (calls_compensateFailedUpdate hp) fun _ => calls_throw error
  | ok _ =>
    refine Calls.run_bind (calls_io hid) fun stored => ?_
    cases stored
    · exact calls_throw _
    · exact calls_return _

lemma calls_dismantle (asn : UInt32) (peerName : String) :
    Calls (OnPeer p W) (dismantle asn peerName p).run := by
  refine calls_attempt_bind onPeer_syncNftPorts fun r => ?_
  cases r with
  | error error => exact calls_attempt_bind (calls_io rfl) fun _ => calls_throw error
  | ok _ =>
    refine calls_attempt_bind onPeer_removeExternalState fun r => ?_
    cases r with
    | error error =>
      refine calls_attempt_bind (calls_io rfl) fun r => ?_
      cases r with
      | error _ => exact calls_throw _
      | ok _ =>
        refine calls_attempt_bind (onPeer_applyPeer rfl) fun r => ?_
        cases r with
        | error _ => exact calls_throw _
        | ok _ => exact calls_attempt_bind onPeer_syncNftPorts fun _ => calls_throw _
    | ok _ =>
      refine Calls.run_bind (calls_io rfl) fun deleted => ?_
      cases deleted
      · exact calls_throw _
      · exact calls_return _

section Background

/-- The calls of the jobs that serve no request: they reserve nothing and store no desired row. -/
def Background : Call → Prop
  | .io (.reservePeer ..) | .io (.updatePeerDesired _) | .io .nextPeerId | .io (.getPeer ..) => False
  | _ => True

/-- No event is taken from the queue. -/
def KeepsEvents : Call → Prop
  | .io (.deletePeerChange _) => False
  | _ => True

/-- The calls of a job for one event or for all rows: those of the background, but the queue stays. -/
def Job : Call → Prop
  | .io (.reservePeer ..) | .io (.updatePeerDesired _) | .io .nextPeerId | .io (.getPeer ..)
  | .io (.deletePeerChange _) => False
  | _ => True

lemma Job.background {e : Call} (h : Job e) : Background e := by
  cases e with
  | io c => cases c <;> first | exact trivial | exact h
  | _ => trivial

lemma Job.keepsEvents {e : Call} (h : Job e) : KeepsEvents e := by
  cases e with
  | io c => cases c <;> first | exact trivial | exact h
  | _ => trivial

lemma OnPeer.job {e : Call} (h : OnPeer p (fun _ => False) e) : Job e := by
  cases e with
  | io c => cases c <;> first | exact trivial | exact absurd h (by simp [OnPeer])
  | _ => trivial

lemma OnPeer.keepsEvents {e : Call} (h : OnPeer p W e) : KeepsEvents e := by
  cases e with
  | io c => cases c <;> first | exact trivial | exact absurd h (by simp [OnPeer])
  | _ => trivial

lemma calls_settleRow (snapshot : Peer) (row : Option Peer) :
    Calls Job (settleRow snapshot row).run := by
  have undo : ∀ p : Peer, Calls Job (removeExternalState p).run := fun p =>
    onPeer_removeExternalState.mono fun _ => OnPeer.job
  cases row with
  | none => exact undo snapshot
  | some peer =>
    simp only [settleRow]
    split
    · refine Calls.run_bind ((onPeer_applyPeer rfl).mono fun _ => OnPeer.job) fun _ => ?_
      split
      · refine Calls.run_bind (calls_io trivial) fun stored => ?_
        cases stored
        · exact calls_throw _
        · exact calls_return _
      · exact calls_return _
    · split
      · refine Calls.run_bind (undo peer) fun _ => Calls.run_bind (calls_io trivial) fun deleted => ?_
        cases deleted
        · exact calls_throw _
        · exact calls_return _
      · exact undo peer

lemma calls_applyPeerChange (change : PeerChange) :
    Calls Job (applyPeerChange change).run :=
  calls_withLock trivial trivial <| Calls.run_bind (calls_io trivial) fun row =>
    Calls.run_bind (calls_settleRow _ row) fun _ =>
      (onPeer_syncNftPorts (p := change.peer)).mono fun _ => OnPeer.job

lemma calls_processChanges {firstError : Option PeerError} {changes : List PeerChange}
    (applies : ∀ change ∈ changes, Calls P (applyPeerChange change).run)
    (removes : ∀ change ∈ changes, P (.io (.deletePeerChange change.eventId))) :
    Calls P (processChanges firstError changes).run := by
  induction changes generalizing firstError with
  | nil => cases firstError <;> trivial
  | cons change changes ih =>
    refine Calls.run_bind ?_ fun error => ih (fun c hc => applies c (List.mem_cons_of_mem _ hc))
      fun c hc => removes c (List.mem_cons_of_mem _ hc)
    refine calls_attempt_bind (applies change List.mem_cons_self) fun r => ?_
    cases r with
    | error error => exact calls_return _
    | ok _ =>
      refine calls_attempt_bind (calls_io (removes change List.mem_cons_self)) fun r => ?_
      cases r <;> exact calls_return _

lemma calls_syncPendingPeerChanges : Calls Background syncPendingPeerChanges.run :=
  Calls.run_bind (calls_io trivial) fun _ => calls_processChanges
    (fun change _ => (calls_applyPeerChange change).mono fun _ => Job.background) fun _ _ => trivial

lemma calls_recover : Calls Job recover.run := by
  refine Calls.run_bind (calls_io trivial) fun peers => ?_
  refine Calls.run_bind (Calls.forM fun p _ =>
    (onPeer_applyWireguard (p := p) rfl).mono fun _ => OnPeer.job) fun _ => ?_
  refine Calls.run_bind (calls_withLock trivial trivial (calls_io trivial)) fun _ => ?_
  refine Calls.run_bind (calls_withLock trivial trivial (calls_io trivial)) fun _ => ?_
  refine Calls.run_bind (Calls.forM fun p _ =>
    calls_withLock trivial trivial (calls_io trivial)) fun _ => ?_
  refine Calls.run_bind (calls_io trivial) fun managed => ?_
  refine Calls.run_bind (Calls.forM fun name _ => ?_) fun _ => ?_
  · unfold removeUnlessDesired
    split
    · exact calls_return _
    · exact calls_io trivial
  refine Calls.run_bind (calls_io trivial) fun changes => ?_
  refine Calls.run_bind (Calls.forM fun change _ => ?_) fun _ => ?_
  · unfold removeDeleted
    split
    · refine Calls.run_bind (calls_io trivial) fun row => ?_
      split
      · exact calls_io trivial
      · exact calls_return _
    · exact calls_return _
  refine Calls.run_bind (Calls.forM fun p _ => ?_) fun _ => Calls.forM fun p _ => ?_
  · refine Calls.run_bind (calls_io trivial) fun deleted => ?_
    cases deleted
    · exact calls_throw _
    · exact calls_return _
  · refine calls_withLock trivial trivial (Calls.run_bind (calls_io trivial) fun stored => ?_)
    cases stored
    · exact calls_throw _
    · exact calls_return _

end Background

section Requests
variable {cfg : Config} {asn : UInt32} {peerName : String} {pubkey : WgPubKey}
  {linkLocal : Option (Ipv6.Ipv6Addr × Ipv6.Ipv6Addr)}

lemma calls_reserveFrom {test : Bool} {peerAt : UInt16 → Peer} {increments : List ℕ}
    (reads : P (.io (.peerExists asn peerName)) ∧ ∀ port, P (.io (.listenPortInUse port)))
    (reserves : ∀ port, P (.io (.reservePeer (peerAt port) test))) :
    Calls P (reserveFrom asn peerName test peerAt increments).run := by
  induction increments with
  | nil => exact calls_throw _
  | cons increment increments ih =>
    refine Calls.run_bind (calls_io (reads.2 _)) fun inUse => ?_
    cases inUse with
    | true => exact ih
    | false =>
      refine Calls.run_bind (calls_io (reserves _)) fun reserved => ?_
      cases reserved with
      | true => exact calls_return _
      | false =>
        refine Calls.run_bind (calls_io reads.1) fun taken => ?_
        cases taken with
        | true => exact calls_throw _
        | false => exact ih

lemma calls_createPeer {endpoint : Option String} {mtu : Option UInt16} :
    Calls KeepsEvents (createPeer cfg asn peerName pubkey endpoint linkLocal mtu).run := by
  refine calls_withLock trivial trivial (Calls.run_bind (calls_io trivial) fun taken => ?_)
  cases taken with
  | true => exact calls_throw _
  | false =>
    refine Calls.run_bind (calls_withLock trivial trivial ?_) fun peer => ?_
    · refine Calls.run_bind (Calls.run_bind (calls_io trivial) fun peerId => ?_) fun peerId => ?_
      · split
        · exact calls_return _
        · exact calls_throw _
      · generalize List.range 10000 = increments
        exact calls_reserveFrom ⟨trivial, fun _ => trivial⟩ fun _ => trivial
    · split
      · exact calls_return _
      · exact (calls_provision (W := fun _ => True) asn).mono fun _ => OnPeer.keepsEvents

lemma calls_orNotFound (row : Option Peer) : Calls P (orNotFound asn peerName row).run := by
  cases row with
  | none => exact calls_throw _
  | some peer => exact calls_return _

lemma calls_updatePeer {endpoint : Option (Option String)} {mtu : Option (Option UInt16)} :
    Calls KeepsEvents (updatePeer cfg asn peerName pubkey endpoint linkLocal mtu).run := by
  refine calls_withLock trivial trivial (Calls.run_bind (calls_io trivial) fun row =>
    Calls.run_bind (calls_orNotFound row) fun oldPeer => ?_)
  split
  · exact calls_throw _
  · refine Calls.run_bind (calls_io trivial) fun stored => ?_
    cases stored with
    | false => exact calls_throw _
    | true =>
      have whole : Calls (OnPeer oldPeer fun _ => True) (reprovision asn peerName oldPeer
          (desiredPeer cfg asn pubkey endpoint linkLocal mtu oldPeer)).run :=
        calls_reprovision asn peerName trivial rfl rfl
      exact whole.mono fun _ => OnPeer.keepsEvents

lemma calls_deletePeer : Calls KeepsEvents (deletePeer asn peerName).run := by
  refine calls_withLock trivial trivial (Calls.run_bind (calls_io trivial) fun row =>
    Calls.run_bind (calls_orNotFound row) fun peer => Calls.run_bind (calls_io trivial)
      fun marked => ?_)
  cases marked with
  | false => exact calls_throw _
  | true =>
    have whole : Calls (OnPeer peer fun _ => True) (dismantle asn peerName peer).run :=
      calls_dismantle asn peerName
    exact whole.mono fun _ => OnPeer.keepsEvents

/-- Only the peer-change listener takes events from the queue. -/
theorem calls_program {op : Op} (h : op ≠ .syncPendingPeerChanges) :
    Calls KeepsEvents (program cfg op) := by
  cases op with
  | createPeer => exact calls_createPeer.bind fun _ => trivial
  | updatePeer => exact calls_updatePeer.bind fun _ => trivial
  | deletePeer => exact calls_deletePeer.bind fun _ => trivial
  | syncPendingPeerChanges => exact absurd rfl h
  | syncNftPorts =>
    refine Calls.bind ?_ fun _ => trivial
    exact Calls.run_bind (calls_io trivial) fun _ => calls_withLock trivial trivial (calls_io trivial)
  | recover => exact (calls_recover.mono fun _ => Job.keepsEvents).bind fun _ => trivial

end Requests

end Autopeer.ManagerFootprints
