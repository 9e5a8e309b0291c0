import Autopeer.OperationEffects
import Autopeer.TableInvariant

/-! Where the rows come from, and when they go. Each row is what the requests of its pair have made of
a row of the start or of a create, and a row goes only by a delete of its pair or by an administrator. -/
namespace Autopeer.TableProvenance
open Ipv6 PeerData ProgramTree ProgramPool TransitionRuns
open ManagerWorld ManagerPrograms ManagerSystem ManagerFootprints ManagerEffects ManagerRules
open TableIdentity TableDiscipline TableInvariant

variable {cfg : Config} {w w' : World} {s s' : System}

section Origin
variable {start : List Peer} {requested : Op → Prop}

/-- The rows that requests make of the rows of the start, in whatever status. -/
inductive Derived (cfg : Config) (start : List Peer) (requested : Op → Prop) : Peer → Prop
  | start {p : Peer} (here : p ∈ start) : Derived cfg start requested p
  | created {asn : UInt32} {peerName : String} {pubkey : WgPubKey} {endpoint : Option String}
      {linkLocal : Option (Ipv6Addr × Ipv6Addr)} {mtu : Option UInt16}
      (create : requested (.createPeer asn peerName pubkey endpoint linkLocal mtu)) (peerId : UInt32)
      (increment : ℕ) :
    Derived cfg start requested (buildPeer peerId asn peerName pubkey endpoint
      (linkLocal.getD (asnLinkLocal cfg.localAsn, asnLinkLocal asn)) (searchPort asn increment)
      (mtu.getD 1420))
  | updated {p : Peer} {pubkey : WgPubKey} {endpoint : Option (Option String)}
      {linkLocal : Option (Ipv6Addr × Ipv6Addr)} {mtu : Option (Option UInt16)}
      (before : Derived cfg start requested p)
      (update : requested (.updatePeer p.asn p.peerName pubkey endpoint linkLocal mtu)) :
    Derived cfg start requested (desiredPeer cfg p.asn pubkey endpoint linkLocal mtu p)
  | status {p : Peer} (before : Derived cfg start requested p) (status : PeerStatus) :
    Derived cfg start requested { p with status }

lemma derived_law {op : Op} (h : requested op) : OpLaw cfg (Derived cfg start requested) op where
  built := by
    rintro asn peerName pubkey endpoint linkLocal mtu rfl - peerId increment
    exact .created h peerId increment
  desired := by
    rintro asn peerName pubkey endpoint linkLocal mtu rfl p before rfl rfl
    exact .updated before h

/-- Along every run the rows are what the requests that were started have made of those of the start. -/
theorem rows_derived (ids : Identified w.toTables)
    (run : Reaches (step cfg) (fun _ l => ∀ op, l = .start op → requested op) (System.stopped w) s) :
    ∀ p ∈ s.world.peers, Derived cfg w.peers requested p :=
  (Reaches.inOrder_of (fun _ status before => .status before status) run
    (inOrder_stopped ids fun _ => .start) fun _ _ hl => derived_law (hl _ rfl)).rows

end Origin

section Stay
variable {r : Peer} {α : Type}

/-- The call neither deletes the row nor marks it. -/
def Spares (r : Peer) : Call → Prop
  | .io (.setStatus peerId status) => peerId = r.peerId → status ≠ .deleting
  | .io (.deletePeer peerId) => peerId ≠ r.peerId
  | _ => True

/-- What the database answers while the row is there and not marked. -/
def sparesAnswer (r : Peer) : (e : Call) → Answer e → Prop
  | .io (.getPeer asn peerName), .ok (some p) =>
    p.peerId = r.peerId → asn = r.asn ∧ peerName = r.peerName
  | .io (.getPeerById _), .ok (some p) => p.peerId = r.peerId → p.status ≠ .deleting
  | .io .listPeers, .ok peers => ∀ p ∈ peers, p.peerId = r.peerId → p.status ≠ .deleting
  | .io .nextPeerId, .ok n => n < 2 ^ 32 → UInt32.ofNat n ≠ r.peerId
  | _, _ => True

def sparing (r : Peer) : Discipline Call Answer Unit :=
  ⟨(), fun _ => Spares r, fun _ => sparesAnswer r, fun _ _ _ => ()⟩

/-- The row is there, and not marked for deletion. -/
def Stays (r : Peer) (t : Tables) : Prop :=
  ∃ q ∈ t.peers, q.peerId = r.peerId ∧ q.status ≠ .deleting

section Rows
variable {t : Tables} {peerId : UInt32} {f : Peer → Peer}

lemma Stays.updateRow (h : Stays r t) (hid : ∀ q, (f q).peerId = q.peerId)
    (kept : peerId = r.peerId → ∀ q, q.status ≠ .deleting → (f q).status ≠ .deleting) :
    Stays r (t.updateRow peerId f).2 := by
  obtain ⟨q, hq, hqr, alive⟩ := h
  rcases updateRow_cases t peerId f with ⟨-, he⟩ | ⟨_, -, he⟩ <;> rw [he]
  · exact ⟨q, hq, hqr, alive⟩
  · by_cases hp : peerId = r.peerId
    · exact ⟨f q, mem_replaceRow.mpr (.inr ⟨q, hq, hqr.trans hp.symm, rfl⟩), (hid q).trans hqr,
        kept hp q alive⟩
    · exact ⟨q, mem_replaceRow.mpr (.inl ⟨hq, fun h => hp (h.symm.trans hqr)⟩), hqr, alive⟩

lemma Stays.deleteRow (h : Stays r t) (other : peerId ≠ r.peerId) : Stays r (t.deleteRow peerId).2 := by
  obtain ⟨q, hq, hqr, alive⟩ := h
  rcases deleteRow_cases t peerId with ⟨-, he⟩ | ⟨_, -, he⟩ <;> rw [he]
  · exact ⟨q, hq, hqr, alive⟩
  · exact ⟨q, mem_removeRow.mpr ⟨hq, fun h => other (h.symm.trans hqr)⟩, hqr, alive⟩

lemma stored_ne_deleting {status : PeerStatus} (h : status ≠ .deleting) : status.stored ≠ .deleting := by
  cases status with
  | deleting => exact absurd rfl h
  | error detail => exact (by decide : strToStatus "error" ≠ .deleting)
  | _ => decide

lemma Stays.effect {c : Io} (h : Stays r w.toTables) (ha : Spares r (.io c)) :
    Stays r (effect cfg c w).2.toTables := by
  cases c with
  | nextPeerId =>
    rw [ManagerWorld.effect]
    split <;> exact h
  | reservePeer p test =>
    rw [ManagerWorld.effect]
    split
    · exact h
    · split
      · exact h
      · obtain ⟨q, hq, hqr, alive⟩ := h
        exact ⟨q, List.mem_append_left _ hq, hqr, alive⟩
  | updatePeerDesired p =>
    rw [ManagerWorld.effect]
    split
    · exact h
    · exact h.updateRow (fun _ => rfl) fun _ _ _ => by simp [desiredColumns]
  | setStatus peerId status =>
    exact h.updateRow (fun _ => rfl) fun hid _ _ => stored_ne_deleting (ha hid)
  | deletePeer peerId => exact h.deleteRow ha
  | ensureWgInterface ifaceName peerId mtu =>
    rw [ManagerWorld.effect, World.setIface, World.addLink]
    split <;> exact h
  | configurePeer ifaceName listenPort pubkey endpoint =>
    rw [ManagerWorld.effect]
    split <;> exact h
  | configureLocalAddress ifaceName address =>
    rw [ManagerWorld.effect]
    split <;> exact h
  | _ => exact h

lemma Stays.exec {o : Outcome} {e : Call} {a : Answer e} (h : Stays r w.toTables) (ha : Spares r e)
    (hx : exec cfg o e w = some (a, w')) : Stays r w'.toTables := by
  cases e with
  | io c =>
    rcases exec_tables hx with he | ⟨-, ht | ht⟩
    · have alive : Stays r (ManagerWorld.effect cfg c w).2.toTables := h.effect ha
      rwa [he] at alive
    · rwa [ht]
    · rw [ht]
      exact h.effect ha
  | lock l =>
    rw [OperationEffects.exec_lock hx]
    exact h
  | unlock l =>
    rw [OperationEffects.exec_unlock hx]
    exact h
  | resolveEndpoint text =>
    cases o <;> simp only [ManagerWorld.exec, reduceCtorEq, Option.some.injEq, Prod.mk.injEq] at hx <;>
      exact hx.2 ▸ h

/-- While the row stays, what the calls answer shows it unmarked. -/
lemma spares_answer {o : Outcome} {e : Call} {a : Answer e} (ids : Identified w.toTables)
    (known : Known w.toTables r) (h : Stays r w.toTables) (hx : exec cfg o e w = some (a, w')) :
    sparesAnswer r e a := by
  have alive : ∀ p ∈ w.peers, p.peerId = r.peerId → p.status ≠ .deleting := fun p hp hid => by
    obtain ⟨q, hq, hqr, alive⟩ := h
    obtain rfl := List.inj_on_of_nodup_map ids.rowIds hp hq (hid.trans hqr.symm)
    exact alive
  cases e with
  | io c =>
    cases a with
    | error error => cases c <;> trivial
    | ok v =>
      have he := exec_ok hx
      cases c with
      | getPeer asn peerName =>
        cases v with
        | none => trivial
        | some p =>
          obtain ⟨hrow, -⟩ : w.rowOf? asn peerName = some p ∧ w = w' := by simpa [effect] using he
          obtain ⟨hp, rfl, rfl⟩ := rowOf?_some hrow
          intro hid
          have same := Known.identity_eq ids (ids.rowBorn p hp) known hid
          exact ⟨identity_asn same, identity_peerName same⟩
      | getPeerById peerId =>
        cases v with
        | none => trivial
        | some p =>
          obtain ⟨hrow, -⟩ : w.row? peerId = some p ∧ w = w' := by simpa [effect] using he
          exact alive p (row?_some hrow).1
      | listPeers =>
        obtain ⟨rfl, -⟩ : w.listPeers cfg = v ∧ w = w' := by simpa [effect] using he
        exact fun p hp => alive p (mem_listPeers.mp hp)
      | nextPeerId =>
        rw [effect] at he
        split at he
        · obtain ⟨rfl, -⟩ : w.peerSeq = v ∧ _ := by simpa using he
          intro small hid
          obtain ⟨b, hb, hbr⟩ := known
          have drawn := ids.bornSeq b hb
          rw [identity_peerId hbr, ← hid] at drawn
          simp [UInt32.toNat_ofNat_of_lt' small] at drawn
        · simp at he
      | _ => trivial
  | _ => trivial

end Rows

section Programs
variable {p : Peer} {asn : UInt32} {peerName : String}

/-- A call that could not hit any row. -/
def Leaves : Call → Prop
  | .io (.setStatus _ status) => status ≠ .deleting
  | .io (.deletePeer _) => False
  | _ => True

lemma Leaves.spares {e : Call} (h : Leaves e) : Spares r e := by
  cases e with
  | io c =>
    cases c with
    | setStatus peerId status => exact fun _ => h
    | deletePeer peerId => exact h.elim
    | _ => trivial
  | _ => trivial

/-- The calls on another peer. -/
lemma OnPeer.spares {W : Peer → Prop} {e : Call} (h : OnPeer p W e) (hp : p.peerId ≠ r.peerId) :
    Spares r e := by
  cases e with
  | io c =>
    cases c with
    | setStatus peerId status => exact fun hid => absurd (h.symm.trans hid) hp
    | deletePeer peerId => exact fun hid => hp (h.symm.trans hid)
    | _ => trivial
  | _ => trivial

lemma follows_of_spares {x : Program Call Answer α} (h : Calls (Spares r) x) :
    Follows (sparing r) x () fun _ _ => True :=
  (Follows.of_calls (h.mono fun _ he => ⟨he, fun _ => rfl⟩)).mono fun _ _ _ => trivial

lemma leaves_syncNftPorts : Calls Leaves syncNftPorts.run :=
  calls_syncNftPorts fun _ h => by cases h <;> trivial

lemma leaves_applyWireguard : Calls Leaves (applyWireguard p).run :=
  calls_applyWireguard fun _ h => by cases h <;> trivial

lemma leaves_applyPeer : Calls Leaves (applyPeer p).run :=
  calls_applyPeer (fun _ h => by cases h <;> trivial) fun _ h => by cases h <;> trivial

lemma leaves_removeExternalState : Calls Leaves (removeExternalState p).run :=
  calls_removeExternalState (fun _ h => by cases h <;> trivial) trivial

/-- An update, with its compensation, marks and deletes nothing. -/
lemma leaves_updatePeer {pubkey : WgPubKey} {endpoint : Option (Option String)}
    {linkLocal : Option (Ipv6Addr × Ipv6Addr)} {mtu : Option (Option UInt16)} :
    Calls Leaves (updatePeer cfg asn peerName pubkey endpoint linkLocal mtu).run := by
  have activate : ∀ peerId, Leaves (.io (.setStatus peerId .active)) := fun _ => by simp [Leaves]
  have undo : ∀ old, Calls Leaves (compensateFailedUpdate old).run := fun old => by
    refine calls_attempt_bind (calls_io trivial) fun r => ?_
    cases r with
    | error _ => exact calls_return _
    | ok _ =>
      refine calls_attempt_bind leaves_applyPeer fun r => ?_
      cases r with
      | error _ => exact calls_return _
      | ok _ => exact calls_attempt_bind (calls_io (activate _)) fun _ => calls_return _
  refine calls_withLock trivial trivial (Calls.run_bind (calls_io trivial) fun row =>
    Calls.run_bind (calls_orNotFound row) fun old => ?_)
  split
  · exact calls_throw _
  · refine Calls.run_bind (calls_io trivial) fun stored => ?_
    cases stored with
    | false => exact calls_throw _
    | true =>
      refine calls_attempt_bind leaves_applyPeer fun r => ?_
      cases r with
      | error error => exact Calls.run_bind (undo old) fun _ => calls_throw error
      | ok _ =>
        refine Calls.run_bind (calls_io (activate _)) fun stored => ?_
        cases stored
        · exact calls_throw _
        · exact calls_return _

/-- The row that a create reserves has an id of its own. -/
lemma follows_createPeer {pubkey : WgPubKey} {endpoint : Option String}
    {linkLocal : Option (Ipv6Addr × Ipv6Addr)} {mtu : Option UInt16} :
    Follows (sparing r) (createPeer cfg asn peerName pubkey endpoint linkLocal mtu).run ()
      fun _ _ => True := by
  refine follows_withLock trivial fun _ => ?_
  refine follows_io_bind trivial (fun taken _ => ?_) fun _ _ => ⟨trivial, fun _ => trivial⟩
  cases taken with
  | true => exact follows_throw ⟨trivial, fun _ => trivial⟩
  | false =>
    refine Follows.run_bind
      (B := fun _ result => ∀ peer : Peer, result = .ok peer → peer.peerId ≠ r.peerId) ?_
      (fun _ peer h => ?_) fun _ _ _ => ⟨trivial, fun _ => trivial⟩
    · refine follows_withLock trivial fun _ => ?_
      refine Follows.mono ?_ fun _ _ h => ⟨trivial, fun _ => h⟩
      refine Follows.run_bind (x := allocatePeerId) (B := fun _ result => ∀ peerId,
        result = .ok peerId → peerId ≠ r.peerId) ?_ (fun _ peerId h => ?_) fun _ _ _ _ h => by cases h
      · refine follows_io_bind trivial (fun n hn => ?_) fun _ _ _ h => by cases h
        split
        · rename_i small
          refine follows_return fun peerId h => ?_
          cases h
          exact hn small
        · exact follows_throw fun _ h => by cases h
      · have id := h peerId rfl
        generalize List.range 10000 = increments
        refine (follows_reserveFrom (I := fun _ => True) (B := fun _ p => p.peerId ≠ r.peerId) trivial
          ?_ fun port m _ => ⟨trivial, fun _ _ => ⟨fun _ => id, fun _ => trivial⟩⟩).mono
            fun _ _ h => h.1
        rintro c (rfl | ⟨port, rfl⟩) m - <;> exact ⟨trivial, fun _ _ => trivial⟩
    · split
      · exact follows_return ⟨trivial, fun _ => trivial⟩
      · have other : Calls (Spares r) (provision asn peer).run :=
          (calls_provision (W := fun _ => True) asn).mono fun _ he => OnPeer.spares he (h peer rfl)
        exact (follows_of_spares other).mono fun _ _ _ => ⟨trivial, fun _ => trivial⟩

/-- A delete of another pair finds another row. -/
lemma follows_deletePeer (other : (asn, peerName) ≠ r.pair) :
    Follows (sparing r) (deletePeer asn peerName).run () fun _ _ => True := by
  refine follows_withLock trivial fun _ => ?_
  refine follows_io_bind trivial (fun row hrow => ?_) fun _ _ => ⟨trivial, fun _ => trivial⟩
  cases row with
  | none => exact follows_throw ⟨trivial, fun _ => trivial⟩
  | some peer =>
    have hid : peer.peerId ≠ r.peerId := fun hid => other (by
      obtain ⟨rfl, rfl⟩ := hrow hid
      rfl)
    refine Follows.mono (follows_of_spares ?_) fun _ _ _ => ⟨trivial, fun _ => trivial⟩
    have dismantled : Calls (Spares r) (dismantle asn peerName peer).run :=
      (calls_dismantle (W := fun _ => True) asn peerName).mono fun _ he => OnPeer.spares he hid
    change Calls (Spares r) (io (.setStatus peer.peerId .deleting) >>= fun marked =>
      if marked then dismantle asn peerName peer else throw (.notFound asn peerName) : Manager Peer).run
    refine Calls.run_bind (calls_io fun h => absurd h hid) fun marked => ?_
    cases marked with
    | false => exact calls_throw _
    | true => exact dismantled

lemma spares_settleRow {snapshot : Peer} {row : Option Peer}
    (unmarked : ∀ peer, row = some peer → peer.peerId = r.peerId → peer.status ≠ .deleting) :
    Calls (Spares r) (settleRow snapshot row).run := by
  have leaves : ∀ {x : Manager Unit}, Calls Leaves x.run → Calls (Spares r) x.run := fun h =>
    h.mono fun _ => Leaves.spares
  cases row with
  | none => exact leaves leaves_removeExternalState
  | some peer =>
    simp only [settleRow]
    split
    · refine Calls.run_bind (leaves leaves_applyPeer) fun _ => ?_
      split
      · refine Calls.run_bind (calls_io fun _ => by simp) fun stored => ?_
        cases stored
        · exact calls_throw _
        · exact calls_return _
      · exact calls_return _
    · split
      · rename_i marked
        refine Calls.run_bind (leaves leaves_removeExternalState) fun _ =>
          Calls.run_bind (calls_io fun hid => unmarked peer rfl hid marked) fun deleted => ?_
        cases deleted
        · exact calls_throw _
        · exact calls_return _
      · exact leaves leaves_removeExternalState

lemma follows_applyPeerChange (change : PeerChange) :
    Follows (sparing r) (applyPeerChange change).run () fun _ _ => True := by
  refine follows_withLock trivial fun _ => ?_
  refine follows_io_bind trivial (fun row hrow => ?_) fun _ _ => ⟨trivial, fun _ => trivial⟩
  have calls : Calls (Spares r) (settleRow change.peer row >>= fun _ => syncNftPorts).run := by
    refine Calls.run_bind (spares_settleRow fun peer h => ?_) fun _ =>
      leaves_syncNftPorts.mono fun _ => Leaves.spares
    rw [h] at hrow
    exact hrow
  exact (follows_of_spares calls).mono fun _ _ _ => ⟨trivial, fun _ => trivial⟩

lemma follows_processChanges {firstError : Option PeerError} {changes : List PeerChange} :
    Follows (sparing r) (processChanges firstError changes).run () fun _ _ => True := by
  induction changes generalizing firstError with
  | nil => cases firstError <;> trivial
  | cons change changes ih =>
    refine Follows.run_bind (x := processChange change) (B := fun _ _ => True) ?_ (fun _ _ _ => ih)
      fun _ _ _ => trivial
    refine follows_attempt_bind ((follows_applyPeerChange change).mono fun _ result _ => ?_)
    cases result with
    | error error => exact follows_return trivial
    | ok _ =>
      refine follows_attempt_bind (follows_io trivial fun gone _ => ?_)
      cases gone <;> exact follows_return trivial

/-- Recovery finishes the deletes of the rows that its list shows as marked. -/
lemma follows_recover : Follows (sparing r) recover.run () fun _ _ => True := by
  refine follows_io_bind trivial (fun peers hpeers => ?_) fun _ _ => trivial
  have leaves : ∀ {β : Type} {x : Manager β}, Calls Leaves x.run → Calls (Spares r) x.run :=
    fun h => h.mono fun _ => Leaves.spares
  refine follows_of_spares ?_
  refine Calls.run_bind (Calls.forM fun p _ => leaves leaves_applyWireguard) fun _ => ?_
  refine Calls.run_bind (calls_withLock trivial trivial (calls_io trivial)) fun _ => ?_
  refine Calls.run_bind (calls_withLock trivial trivial (calls_io trivial)) fun _ => ?_
  refine Calls.run_bind (Calls.forM fun p _ => calls_withLock trivial trivial (calls_io trivial))
    fun _ => ?_
  refine Calls.run_bind (calls_io trivial) fun managed => ?_
  refine Calls.run_bind (Calls.forM fun name _ => ?_) fun _ => ?_
  · unfold removeUnlessDesired
    split
    · exact calls_return _
    · exact calls_io trivial
  refine Calls.run_bind (calls_io trivial) fun changes => ?_
  refine Calls.run_bind (Calls.forM fun change _ => ?_) fun _ => ?_
  · unfold removeDeleted
    split
    · refine Calls.run_bind (calls_io trivial) fun row => ?_
      split
      · exact calls_io trivial
      · exact calls_return _
    · exact calls_return _
  refine Calls.run_bind (Calls.forM fun p hp => ?_) fun _ => Calls.forM fun p _ => ?_
  · obtain ⟨listed, marked⟩ := List.mem_filter.mp hp
    refine Calls.run_bind (calls_io fun hid => hpeers p listed hid (of_decide_eq_true marked))
      fun deleted => ?_
    cases deleted
    · exact calls_throw _
    · exact calls_return _
  · refine calls_withLock trivial trivial (Calls.run_bind (calls_io fun _ => by simp) fun stored => ?_)
    cases stored
    · exact calls_throw _
    · exact calls_return _

lemma follows_program {op : Op} (other : op ≠ .deletePeer r.asn r.peerName) :
    Follows (sparing r) (program cfg op) () fun _ _ => True := by
  cases op with
  | createPeer => exact follows_answerPeer follows_createPeer
  | updatePeer =>
    exact follows_answerPeer (follows_of_spares (leaves_updatePeer.mono fun _ => Leaves.spares))
  | deletePeer asn peerName =>
    refine follows_answerPeer (follows_deletePeer fun h => other ?_)
    obtain ⟨rfl, rfl⟩ := Prod.mk.inj h
    rfl
  | syncPendingPeerChanges =>
    exact follows_answerNone (follows_io_bind trivial (fun _ _ => follows_processChanges)
      fun _ _ => trivial)
  | syncNftPorts =>
    exact follows_answerNone (follows_of_spares (leaves_syncNftPorts.mono fun _ => Leaves.spares))
  | recover => exact follows_answerNone follows_recover

end Programs

/-- No delete of the pair starts, and no administrator deletes or marks the row. -/
def LeavesRow (r : Peer) : Label → Prop
  | .start op => op ≠ .deletePeer r.asn r.peerName
  | .sqlStatus peerId status => peerId = r.peerId → status ≠ .deleting
  | .sqlDelete peerId => peerId ≠ r.peerId
  | _ => True

/-- The tasks spare the row, and it is there. -/
def Spared (r : Peer) : System → Prop :=
  Keeps (sparing r) (fun _ _ _ => True) fun w _ => Stays r w.toTables

lemma spared_step {l : Label} (h : Spared r s) (ids : Identified s.world.toTables)
    (known : Known s.world.toTables r) (hl : LeavesRow r l) (hs : step cfg l s = some s') :
    Spared r s' := by
  refine keeps_step h hs ?_ ?_ ?_ ?_ ?_
  · intro i o _ μ t e next a w' _ stays ha hx
    exact ⟨spares_answer ids known stays hx, stays.exec ha hx⟩
  · rintro op rfl - - μ - stays
    exact ⟨(), follows_program hl, stays⟩
  · rintro peerId status rfl μ - stays
    exact stays.updateRow (fun _ => rfl) fun hid _ _ => hl hid
  · rintro peerId rfl μ - stays
    exact stays.deleteRow hl
  · rintro - μ stays
    exact ⟨(), follows_program (by simp), stays⟩

/-- Along every run in which no delete of its pair starts and no administrator deletes or marks it, a
row stays with its identity, and is never marked for deletion. -/
theorem rows_stay (ids : Identified w.toTables) (here : r ∈ w.peers) (alive : r.status ≠ .deleting)
    (run : Reaches (step cfg) (fun _ l => LeavesRow r l) (System.stopped w) s) :
    ∃ q ∈ s.world.peers, identity q = identity r ∧ q.status ≠ .deleting := by
  have known : ∀ u, Reaches (step cfg) (fun _ l => LeavesRow r l) (System.stopped w) u →
      Identified u.world.toTables ∧ Known u.world.toTables r := fun u hu =>
    ⟨identified_reaches ids hu, Known.mono (reaches_born hu) (ids.rowBorn r here)⟩
  have start : Spared r (System.stopped w) := ⟨_, Obeys.nil, r, here, rfl, alive⟩
  obtain ⟨μ, -, q, hq, hid, hstatus⟩ := run.invariant_with start known
    fun u l v hK hJ hl hs => spared_step hJ hK.1 hK.2 hl hs
  obtain ⟨ids', known'⟩ := known s run
  exact ⟨q, hq, Known.identity_eq ids' (ids'.rowBorn q hq) known' hid, hstatus⟩

end Stay

end Autopeer.TableProvenance
