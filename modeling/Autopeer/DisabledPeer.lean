import Autopeer.TableInvariant
import Autopeer.OperationEffects

/-! A peer that an administrator has disabled. The background jobs leave its row alone, since they
look at the status first; an update and a delete that fails do not, and set it up again. -/
namespace Autopeer.DisabledPeer
open PeerData ProgramTree ProgramPool TransitionRuns
open ManagerWorld ManagerPrograms ManagerSystem ManagerFootprints ManagerEffects ManagerRules
open TableIdentity TableDiscipline TableInvariant

variable {cfg : Config} {r : Peer} {α β : Type}

section Runs

def isUpdate : Op → Bool
  | .updatePeer .. => true
  | _ => false

/-- The calls by which a delete takes a peer down once its row is marked. -/
def dismantles : Io → Bool
  | .listPeers | .runNftBatch _ | .syncBirdFiles .. | .deleteInterface _ => true
  | _ => false

/-- A call stays off the two paths that forget the status: no update reads the row while it is
disabled, and no delete of the peer fails to take it down while the row is there. -/
def sparesCall (r : Peer) (op : Op) (w : World) : (e : Call) → Answer e → Bool
  | .io (.getPeer ..), .ok (some p) =>
    !(isUpdate op && p.peerId = r.peerId && p.status = .disabled)
  | .io c, .error _ =>
    !(decide (op = .deletePeer r.asn r.peerName) && dismantles c && (w.row? r.peerId).isSome)
  | _, _ => true

/-- No administrator sets the status of the row, and no call takes one of the two paths. -/
def spares (cfg : Config) (r : Peer) (s : System) : Label → Bool
  | .task i o =>
    match s.tasks[i]? with
    | some (op, .call e _) =>
      match exec cfg o e s.world with
      | some (a, _) => sparesCall r op s.world e a
      | none => true
    | _ => true
  | .sqlStatus peerId _ => peerId ≠ r.peerId
  | _ => true

end Runs

section Rows
variable {t : Tables} {w w' : World} {q : Peer}

/-- The row was there before, or had a rewrite of its own. -/
lemma row_updateRow {peerId : UInt32} {f : Peer → Peer} (id : ∀ p, (f p).peerId = p.peerId)
    (hq : q ∈ (t.updateRow peerId f).2.peers) :
    ∃ p ∈ t.peers, p.peerId = q.peerId ∧ (q = p ∨ p.peerId = peerId ∧ q = f p) := by
  rcases updateRow_cases t peerId f with ⟨-, he⟩ | ⟨p, -, he⟩
  · rw [he] at hq
    exact ⟨q, hq, rfl, .inl rfl⟩
  · rw [he] at hq
    rcases mem_replaceRow.mp hq with ⟨hq, -⟩ | ⟨p, hp, hid, rfl⟩
    · exact ⟨q, hq, rfl, .inl rfl⟩
    · exact ⟨p, hp, (id p).symm, .inr ⟨hid, rfl⟩⟩

lemma row_deleteRow {peerId : UInt32} (hq : q ∈ (t.deleteRow peerId).2.peers) : q ∈ t.peers := by
  rcases deleteRow_cases t peerId with ⟨-, he⟩ | ⟨p, -, he⟩
  · rwa [he] at hq
  · rw [he] at hq
    exact (mem_removeRow.mp hq).1

/-- The row of the peer, if it is there, is disabled or being deleted. -/
def Down (r : Peer) (t : Tables) : Prop := ∀ q ∈ t.peers, q.peerId = r.peerId → q.enabled = false

def Absent (r : Peer) (t : Tables) : Prop := ∀ q ∈ t.peers, q.peerId ≠ r.peerId

lemma enabled_false : q.enabled = false ↔ q.status = .disabled ∨ q.status = .deleting := by
  simp [Peer.enabled, or_comm, imp_iff_or_not]

/-- What a task was started for, and whether it counts on the row being gone. -/
structure Watch where
  op : Op
  gone : Bool

def downAllowed (r : Peer) (m : Watch) : Call → Prop
  | .io (.setStatus peerId status) => peerId = r.peerId → status = .deleting ∨ m.gone
  | .io (.updatePeerDesired q) => q.peerId ≠ r.peerId
  | .io (.reservePeer p _) => p.peerId ≠ r.peerId
  | _ => True

def downAnswer (r : Peer) (m : Watch) : (e : Call) → Answer e → Prop
  | .io (.getPeer asn peerName), .ok (some p) => p.peerId = r.peerId →
    asn = r.asn ∧ peerName = r.peerName ∧ (isUpdate m.op → p.status = .deleting)
  | .io (.getPeerById _), .ok (some p) => p.peerId = r.peerId → p.enabled = false
  | .io .listPeers, .ok peers => ∀ p ∈ peers, p.peerId = r.peerId → p.enabled = false
  | .io .nextPeerId, .ok n => n < 2 ^ 32 → UInt32.ofNat n ≠ r.peerId
  | _, _ => True

def downNext (r : Peer) (m : Watch) : (e : Call) → Answer e → Watch
  | .io c, .error _ =>
    { m with gone := m.gone || decide (m.op = .deletePeer r.asn r.peerName) && dismantles c }
  | _, _ => m

/-- The discipline under which a row that is not enabled is never enabled again. -/
def down (r : Peer) : Discipline Call Answer Watch :=
  ⟨⟨.recover, false⟩, downAllowed r, downAnswer r, downNext r⟩

/-- What a call leaves of the row. -/
lemma row_effect {c : Io} {m : Watch} (ha : downAllowed r m (.io c))
    (hq : q ∈ (effect cfg c w).2.peers) (hid : q.peerId = r.peerId) :
    ∃ p ∈ w.peers, p.peerId = r.peerId ∧ (q = p ∨ q.status = .deleting ∨ m.gone) := by
  cases c with
  | nextPeerId =>
    rw [effect] at hq
    split at hq <;> exact ⟨q, hq, hid, .inl rfl⟩
  | reservePeer p test =>
    rw [effect] at hq
    split at hq
    · exact ⟨q, hq, hid, .inl rfl⟩
    · split at hq
      · exact ⟨q, hq, hid, .inl rfl⟩
      · rcases List.mem_append.mp hq with hq | hq
        · exact ⟨q, hq, hid, .inl rfl⟩
        · rw [List.mem_singleton.mp hq] at hid
          exact absurd hid ha
  | updatePeerDesired p =>
    rw [effect] at hq
    split at hq
    · exact ⟨q, hq, hid, .inl rfl⟩
    · obtain ⟨p', hp', hid', rfl | ⟨hp, -⟩⟩ := row_updateRow (f := desiredColumns p) (fun _ => rfl) hq
      · exact ⟨q, hp', hid, .inl rfl⟩
      · exact absurd (hp.symm.trans (hid'.trans hid)) ha
  | setStatus peerId status =>
    obtain ⟨p, hp, hpq, rfl | ⟨hpid, rfl⟩⟩ :=
      row_updateRow (f := fun row => { row with status := status.stored }) (fun _ => rfl) hq
    · exact ⟨q, hp, hid, .inl rfl⟩
    · refine ⟨p, hp, hpq.trans hid, .inr ?_⟩
      rcases ha (hpid.symm.trans (hpq.trans hid)) with rfl | gone
      · exact .inl stored_deleting
      · exact .inr gone
  | deletePeer peerId => exact ⟨q, row_deleteRow hq, hid, .inl rfl⟩
  | ensureWgInterface ifaceName peerId mtu =>
    have same : (w.addLink ifaceName).peers = w.peers := by
      rw [World.addLink]
      split <;> rfl
    exact ⟨q, same ▸ hq, hid, .inl rfl⟩
  | configurePeer ifaceName listenPort pubkey endpoint =>
    rw [effect] at hq
    split at hq <;> exact ⟨q, hq, hid, .inl rfl⟩
  | configureLocalAddress ifaceName address =>
    rw [effect] at hq
    split at hq <;> exact ⟨q, hq, hid, .inl rfl⟩
  | _ => exact ⟨q, hq, hid, .inl rfl⟩

lemma row_exec {o : Outcome} {e : Call} {a : Answer e} {m : Watch} (ha : downAllowed r m e)
    (hx : exec cfg o e w = some (a, w')) (hq : q ∈ w'.peers) (hid : q.peerId = r.peerId) :
    ∃ p ∈ w.peers, p.peerId = r.peerId ∧ (q = p ∨ q.status = .deleting ∨ m.gone) := by
  cases e with
  | io c =>
    rcases exec_tables hx with he | ⟨-, ht | ht⟩
    · have hq' : q ∈ (effect cfg c w).2.peers := by rwa [he]
      exact row_effect ha hq' hid
    · exact ⟨q, ht ▸ hq, hid, .inl rfl⟩
    · exact row_effect ha (ht ▸ hq) hid
  | lock l =>
    cases o <;> simp only [exec, Option.ite_none_left_eq_some, reduceCtorEq, Option.some.injEq,
      Prod.mk.injEq] at hx
    obtain ⟨-, -, rfl⟩ := hx
    exact ⟨q, hq, hid, .inl rfl⟩
  | unlock l =>
    cases o <;> simp only [exec, reduceCtorEq, Option.some.injEq, Prod.mk.injEq] at hx
    obtain ⟨-, rfl⟩ := hx
    exact ⟨q, hq, hid, .inl rfl⟩
  | resolveEndpoint endpoint =>
    cases o <;> simp only [exec, reduceCtorEq, Option.some.injEq, Prod.mk.injEq] at hx <;>
      obtain ⟨-, rfl⟩ := hx <;> exact ⟨q, hq, hid, .inl rfl⟩

/-- A row that is gone does not come back. -/
lemma Absent.exec {o : Outcome} {e : Call} {a : Answer e} {m : Watch} (h : Absent r w.toTables)
    (ha : downAllowed r m e) (hx : exec cfg o e w = some (a, w')) : Absent r w'.toTables := by
  intro q hq hid
  obtain ⟨p, hp, hpid, -⟩ := row_exec ha hx hq hid
  exact h p hp hpid

lemma Down.exec {o : Outcome} {e : Call} {a : Answer e} {m : Watch} (h : Down r w.toTables)
    (gone : m.gone → Absent r w.toTables) (ha : downAllowed r m e)
    (hx : exec cfg o e w = some (a, w')) : Down r w'.toTables := by
  intro q hq hid
  obtain ⟨p, hp, hpid, rfl | hdel | hgone⟩ := row_exec ha hx hq hid
  · exact h q hp hid
  · exact enabled_false.mpr (.inr hdel)
  · exact absurd hpid (gone hgone p hp)

/-- What the calls can answer while the row is down. -/
lemma answer_exec {o : Outcome} {e : Call} {a : Answer e} {m : Watch}
    (h : Identified w.toTables) (known : Known w.toTables r) (hd : Down r w.toTables)
    (spared : sparesCall r m.op w e a) (hx : exec cfg o e w = some (a, w')) :
    downAnswer r m e a := by
  cases e with
  | io c =>
    cases a with
    | error error => cases c <;> trivial
    | ok v =>
      have he := exec_ok hx
      cases c with
      | getPeer asn peerName =>
        obtain ⟨rfl, rfl⟩ : v = w.rowOf? asn peerName ∧ w = w' := by
          simpa [effect, eq_comm] using he
        cases hrow : w.rowOf? asn peerName with
        | none => trivial
        | some p =>
          obtain ⟨hp, rfl, rfl⟩ := rowOf?_some hrow
          intro hid
          have same := Known.identity_eq h (h.rowBorn p hp) known hid
          refine ⟨identity_asn same, identity_peerName same, fun hu => ?_⟩
          rw [hrow] at spared
          have hne : p.status ≠ .disabled := by simpa [sparesCall, hu, hid] using spared
          exact (enabled_false.mp (hd p hp hid)).resolve_left hne
      | getPeerById peerId =>
        obtain ⟨rfl, rfl⟩ : v = w.row? peerId ∧ w = w' := by simpa [effect, eq_comm] using he
        cases hrow : w.row? peerId with
        | none => trivial
        | some p => exact hd p (row?_some hrow).1
      | listPeers =>
        obtain ⟨rfl, rfl⟩ : v = w.listPeers cfg ∧ w = w' := by simpa [effect, eq_comm] using he
        exact fun p hp => hd p (mem_listPeers.mp hp)
      | nextPeerId =>
        rw [effect] at he
        split at he
        · obtain ⟨rfl, -⟩ : w.peerSeq = v ∧ _ := by simpa using he
          intro hsmall hid
          obtain ⟨b, hb, hbr⟩ := known
          have hlt := h.bornSeq b hb
          rw [identity_peerId hbr, ← hid] at hlt
          simp [UInt32.toNat_ofNat_of_lt' hsmall] at hlt
        · simp at he
      | _ => trivial
  | _ => trivial

end Rows

section Programs
variable {m : Watch} {p : Peer} {W : Peer → Prop}

/-- The call may be made whatever the task counts on. -/
def Harmless (r : Peer) (e : Call) : Prop := ∀ m, downAllowed r m e

lemma follows_harmless {x : Manager α} (h : Calls (Harmless r) x.run) :
    Follows (down r) x.run m fun _ _ => True :=
  Follows.of_kept (I := fun _ => True) trivial (h.mono fun _ he m _ => ⟨he m, fun _ _ => trivial⟩)

/-- The calls on another peer. -/
lemma OnPeer.harmless (hp : p.peerId ≠ r.peerId) (hW : ∀ q, W q → q.peerId ≠ r.peerId) {e : Call}
    (h : OnPeer p W e) : Harmless r e := by
  cases e with
  | io c =>
    cases c with
    | updatePeerDesired q => exact fun _ => hW q h
    | setStatus peerId status => exact fun _ hid => absurd (h.symm.trans hid) hp
    | reservePeer q test => exact h.elim
    | _ => exact fun _ => trivial
  | _ => exact fun _ => trivial

lemma harmless_syncNftPorts : Calls (Harmless r) syncNftPorts.run :=
  calls_syncNftPorts fun _ h _ => by cases h <;> trivial

lemma harmless_removeExternalState : Calls (Harmless r) (removeExternalState p).run :=
  calls_removeExternalState (fun _ h _ => by cases h <;> trivial) fun _ => trivial

section Create
variable {asn : UInt32} {peerName : String} {pubkey : WgPubKey} {endpoint : Option String}
  {linkLocal : Option (Ipv6.Ipv6Addr × Ipv6.Ipv6Addr)}

/-- The row that a create provisions has an id of its own. -/
lemma follows_reservePeer {mtu : UInt16} :
    Follows (down r) (reservePeer cfg asn peerName pubkey endpoint linkLocal mtu).run m
      fun _ result => ∀ peer, result = .ok peer → peer.peerId ≠ r.peerId := by
  refine Follows.run_bind (x := allocatePeerId) (B := fun _ result => ∀ peerId, result = .ok peerId →
    peerId ≠ r.peerId) ?_ (fun m' peerId h => ?_) fun _ _ _ _ h => by cases h
  · refine follows_io_bind trivial (fun n hn => ?_) fun _ _ _ h => by cases h
    split
    · rename_i small
      refine follows_return fun peerId h => ?_
      cases h
      exact hn small
    · exact follows_throw fun _ h => by cases h
  · have id := h peerId rfl
    generalize List.range 10000 = increments
    refine (follows_reserveFrom (I := fun _ => True) (B := fun _ p => p.peerId ≠ r.peerId) trivial
      ?_ fun port m _ => ⟨id, fun _ _ => ⟨fun _ => id, fun _ => trivial⟩⟩).mono fun _ _ h => h.1
    rintro c (rfl | ⟨port, rfl⟩) m - <;> exact ⟨trivial, fun _ _ => trivial⟩

lemma follows_createPeer {mtu : Option UInt16} :
    Follows (down r) (createPeer cfg asn peerName pubkey endpoint linkLocal mtu).run m
      fun _ _ => True := by
  refine follows_withLock trivial fun _ => ?_
  refine follows_io_bind trivial (fun taken _ => ?_) fun _ _ => ⟨trivial, fun _ => trivial⟩
  cases taken with
  | true => exact follows_throw ⟨trivial, fun _ => trivial⟩
  | false =>
    refine Follows.run_bind
      (B := fun _ result => ∀ peer : Peer, result = .ok peer → peer.peerId ≠ r.peerId) ?_
      (fun m' peer h => ?_) fun _ _ _ => ⟨trivial, fun _ => trivial⟩
    · refine follows_withLock trivial fun _ => ?_
      exact follows_reservePeer.mono fun _ _ h => ⟨trivial, fun _ => h⟩
    · split
      · exact follows_return ⟨trivial, fun _ => trivial⟩
      · have other : Calls (Harmless r) (provision asn peer).run :=
          (calls_provision (W := fun _ => False) asn).mono fun _ =>
            OnPeer.harmless (h peer rfl) fun _ => False.elim
        exact (follows_harmless other).mono fun _ _ _ => ⟨trivial, fun _ => trivial⟩

end Create

section Change
variable {asn : UInt32} {peerName : String}

/-- An update stores and activates only a row that is not the disabled one. -/
lemma follows_updatePeer {pubkey : WgPubKey} {endpoint : Option (Option String)}
    {linkLocal : Option (Ipv6.Ipv6Addr × Ipv6.Ipv6Addr)} {mtu : Option (Option UInt16)}
    (hm : isUpdate m.op) :
    Follows (down r) (updatePeer cfg asn peerName pubkey endpoint linkLocal mtu).run m
      fun _ _ => True := by
  refine follows_withLock trivial fun _ => ?_
  refine follows_io_bind trivial (fun row hrow => ?_) fun _ _ => ⟨trivial, fun _ => trivial⟩
  cases row with
  | none => exact follows_throw ⟨trivial, fun _ => trivial⟩
  | some old =>
    refine Follows.run_bind (x := orNotFound _ _ (some old)) (B := fun _ result => result = .ok old)
      rfl (fun m' p h => ?_) fun _ _ h => by cases h
    cases h
    split
    · exact follows_throw ⟨trivial, fun _ => trivial⟩
    · rename_i alive
      have other : old.peerId ≠ r.peerId := fun hid => alive ((hrow hid).2.2 hm)
      refine follows_io_bind other (fun stored _ => ?_) fun _ _ => ⟨trivial, fun _ => trivial⟩
      cases stored with
      | false => exact follows_throw ⟨trivial, fun _ => trivial⟩
      | true =>
        have calls : Calls (OnPeer old fun q => q.peerId ≠ r.peerId) (reprovision asn peerName old
            (desiredPeer cfg asn pubkey endpoint linkLocal mtu old)).run :=
          calls_reprovision asn peerName other rfl rfl
        exact (follows_harmless (calls.mono fun _ => OnPeer.harmless other fun _ => id)).mono
          fun _ _ _ => ⟨trivial, fun _ => trivial⟩

/-- Once the row is gone, its status may be set. -/
lemma follows_gone {x : Manager α} (h : Calls (OnPeer p fun _ => False) x.run) (hm : m.gone) :
    Follows (down r) x.run m fun (m' : Watch) _ => m'.gone := by
  refine Follows.of_kept (I := fun m : Watch => m.gone) hm (h.mono fun e he m hm => ⟨?_, fun a _ => ?_⟩)
  · cases e with
    | io c =>
      cases c with
      | updatePeerDesired q => exact he.elim
      | setStatus peerId status => exact fun _ => .inr hm
      | reservePeer q test => exact he.elim
      | _ => trivial
    | _ => trivial
  · cases e with
    | io c => cases a <;> simp [down, downNext, hm]
    | _ => exact hm

/-- The task is a delete of the row; if the part ended badly, the row is gone. -/
def Dismantled (r : Peer) (m : Watch) (result : Except PeerError α) : Prop :=
  m.op = .deletePeer r.asn r.peerName ∧ ∀ error, result = .error error → m.gone

lemma dismantled_io {c : Io} (hc : dismantles c) (hm : m.op = .deletePeer r.asn r.peerName)
    (allowed : downAllowed r m (.io c)) : Follows (down r) (io c).run m (Dismantled r) := by
  refine follows_io allowed fun a _ => ?_
  cases a with
  | ok v => exact ⟨hm, fun _ h => by cases h⟩
  | error e => exact ⟨hm, fun _ _ => by simp [down, downNext, hm, hc]⟩

lemma dismantled_withLock {l : Lock} {x : Manager α} (hx : Follows (down r) x.run m (Dismantled r)) :
    Follows (down r) (withLock l x).run m (Dismantled r) :=
  follows_withLock trivial fun _ => hx.mono fun _ _ h => ⟨trivial, fun _ => h⟩

lemma Dismantled.bind {x : Manager α} {f : α → Manager β} (hx : Follows (down r) x.run m (Dismantled r))
    (hf : ∀ a m, m.op = .deletePeer r.asn r.peerName → Follows (down r) (f a).run m (Dismantled r)) :
    Follows (down r) (x >>= f).run m (Dismantled r) :=
  Follows.run_bind hx (fun m' a h => hf a m' h.1) fun _ e h => ⟨h.1, fun _ _ => h.2 e rfl⟩

lemma dismantled_syncNftPorts (hm : m.op = .deletePeer r.asn r.peerName) :
    Follows (down r) syncNftPorts.run m (Dismantled r) :=
  Dismantled.bind (dismantled_io rfl hm trivial) fun _ _ hm =>
    dismantled_withLock (dismantled_io rfl hm trivial)

lemma dismantled_removeExternalState (hm : m.op = .deletePeer r.asn r.peerName) :
    Follows (down r) (removeExternalState p).run m (Dismantled r) :=
  Dismantled.bind (Dismantled.bind (dismantled_io rfl hm trivial) fun _ _ hm =>
    dismantled_withLock (dismantled_io rfl hm trivial)) fun _ _ hm => dismantled_io rfl hm trivial

/-- The delete sets the row up again only where it has gone. -/
lemma follows_dismantle (hm : m.op = .deletePeer r.asn r.peerName) :
    Follows (down r) (dismantle r.asn r.peerName p).run m fun _ _ => True := by
  refine follows_attempt_bind ((dismantled_syncNftPorts hm).mono fun m result h => ?_)
  cases result with
  | error error =>
    have restore : Calls (OnPeer p fun _ => False)
        (attempt (io (.setStatus p.peerId .active)) >>= fun _ => throw error : Manager Peer).run :=
      calls_attempt_bind (calls_io rfl) fun _ => calls_throw error
    exact (follows_gone restore (h.2 error rfl)).mono fun _ _ _ => trivial
  | ok _ =>
    refine follows_attempt_bind ((dismantled_removeExternalState h.1).mono fun m result h => ?_)
    cases result with
    | error error =>
      refine (follows_gone (p := p) ?_ (h.2 error rfl)).mono fun _ _ _ => trivial
      refine calls_attempt_bind (calls_io rfl) fun marked => ?_
      cases marked with
      | error _ => exact calls_throw _
      | ok _ =>
        refine calls_attempt_bind (onPeer_applyPeer rfl) fun applied => ?_
        cases applied with
        | error _ => exact calls_throw _
        | ok _ => exact calls_attempt_bind onPeer_syncNftPorts fun _ => calls_throw _
    | ok _ =>
      refine follows_io_bind trivial (fun deleted _ => ?_) fun _ _ => trivial
      cases deleted with
      | true => exact follows_return trivial
      | false => exact follows_throw trivial

lemma follows_deletePeer (hm : m.op = .deletePeer asn peerName) :
    Follows (down r) (deletePeer asn peerName).run m fun _ _ => True := by
  refine follows_withLock trivial fun _ => ?_
  refine follows_io_bind trivial (fun row hrow => ?_) fun _ _ => ⟨trivial, fun _ => trivial⟩
  cases row with
  | none => exact follows_throw ⟨trivial, fun _ => trivial⟩
  | some peer =>
    refine Follows.run_bind (x := orNotFound _ _ (some peer)) (B := fun m' result =>
      m'.op = .deletePeer asn peerName ∧ result = .ok peer) ⟨hm, rfl⟩ (fun m' p h => ?_)
      fun _ _ h => by cases h.2
    obtain ⟨hm', hp⟩ := h
    cases hp
    refine follows_io_bind (fun _ => .inl rfl) (fun marked _ => ?_)
      fun _ _ => ⟨trivial, fun _ => trivial⟩
    cases marked with
    | false => exact follows_throw ⟨trivial, fun _ => trivial⟩
    | true =>
      suffices body : Follows (down r) (dismantle asn peerName peer).run m' fun _ _ => True from
        body.mono fun _ _ _ => ⟨trivial, fun _ => trivial⟩
      by_cases hid : peer.peerId = r.peerId
      · obtain ⟨rfl, rfl, -⟩ := hrow hid
        exact follows_dismantle hm'
      · exact follows_harmless <| (calls_dismantle (W := fun _ => False) asn peerName).mono fun _ =>
          OnPeer.harmless hid fun _ => False.elim

end Change

section Background

/-- The listener reads the row first, and leaves it alone where it is not enabled. -/
lemma follows_settleRow {snapshot : Peer} {row : Option Peer}
    (down : ∀ peer, row = some peer → peer.peerId = r.peerId → peer.enabled = false) :
    Calls (Harmless r) (settleRow snapshot row).run := by
  cases row with
  | none => exact harmless_removeExternalState
  | some peer =>
    simp only [settleRow]
    split
    · rename_i enabled
      have other : peer.peerId ≠ r.peerId := fun hid => by
        rcases enabled_false.mp (down peer rfl hid) with h | h
        · exact enabled.2 h
        · exact enabled.1 h
      refine Calls.run_bind ((onPeer_applyPeer rfl).mono fun _ =>
        OnPeer.harmless other fun _ => False.elim) fun _ => ?_
      split
      · refine Calls.run_bind (calls_io fun _ hid => absurd hid other) fun stored => ?_
        cases stored
        · exact calls_throw _
        · exact calls_return _
      · exact calls_return _
    · split
      · refine Calls.run_bind harmless_removeExternalState fun _ =>
          Calls.run_bind (calls_io fun _ => trivial) fun deleted => ?_
        cases deleted
        · exact calls_throw _
        · exact calls_return _
      · exact harmless_removeExternalState

lemma follows_applyPeerChange (change : PeerChange) :
    Follows (down r) (applyPeerChange change).run m fun _ _ => True := by
  refine follows_withLock trivial fun _ => ?_
  refine follows_io_bind trivial (fun row hrow => ?_) fun _ _ => ⟨trivial, fun _ => trivial⟩
  have calls : Calls (Harmless r) (settleRow change.peer row >>= fun _ => syncNftPorts).run := by
    refine Calls.run_bind (follows_settleRow fun peer h => ?_) fun _ => harmless_syncNftPorts
    rw [h] at hrow
    exact hrow
  exact (follows_harmless calls).mono fun _ _ _ => ⟨trivial, fun _ => trivial⟩

lemma follows_processChanges {firstError : Option PeerError} {changes : List PeerChange} :
    Follows (down r) (processChanges firstError changes).run m fun _ _ => True := by
  induction changes generalizing firstError m with
  | nil => cases firstError <;> trivial
  | cons change changes ih =>
    refine Follows.run_bind (x := processChange change) (B := fun _ _ => True) ?_ (fun _ _ _ => ih)
      fun _ _ _ => trivial
    refine follows_attempt_bind ((follows_applyPeerChange change).mono fun m result _ => ?_)
    cases result with
    | error error => exact follows_return trivial
    | ok _ =>
      refine follows_attempt_bind (follows_io trivial fun gone _ => ?_)
      cases gone <;> exact follows_return trivial

lemma follows_syncPendingPeerChanges :
    Follows (down r) syncPendingPeerChanges.run m fun _ _ => True :=
  follows_io_bind trivial (fun _ _ => follows_processChanges) fun _ _ => trivial

/-- The list that recovery works from shows the row as it is, and it activates only enabled rows. -/
lemma follows_recover : Follows (down r) recover.run m fun _ _ => True := by
  refine follows_io_bind trivial (fun peers hpeers => ?_) fun _ _ => trivial
  have others : ∀ p ∈ peers.filter Peer.enabled, p.peerId ≠ r.peerId := fun p hp hid => by
    obtain ⟨hp, enabled⟩ := List.mem_filter.mp hp
    exact absurd enabled (by simp [hpeers p hp hid])
  refine follows_harmless ?_
  refine Calls.run_bind (Calls.forM fun p hp => (onPeer_applyWireguard (p := p) rfl).mono fun _ =>
    OnPeer.harmless (others p hp) fun _ => False.elim) fun _ => ?_
  refine Calls.run_bind (calls_withLock (fun _ => trivial) (fun _ => trivial)
    (calls_io fun _ => trivial)) fun _ => ?_
  refine Calls.run_bind (calls_withLock (fun _ => trivial) (fun _ => trivial)
    (calls_io fun _ => trivial)) fun _ => ?_
  refine Calls.run_bind (Calls.forM fun p _ => calls_withLock (fun _ => trivial) (fun _ => trivial)
    (calls_io fun _ => trivial)) fun _ => ?_
  refine Calls.run_bind (calls_io fun _ => trivial) fun managed => ?_
  refine Calls.run_bind (Calls.forM fun name _ => ?_) fun _ => ?_
  · unfold removeUnlessDesired
    split
    · exact calls_return _
    · exact calls_io fun _ => trivial
  refine Calls.run_bind (calls_io fun _ => trivial) fun changes => ?_
  refine Calls.run_bind (Calls.forM fun change _ => ?_) fun _ => ?_
  · unfold removeDeleted
    split
    · refine Calls.run_bind (calls_io fun _ => trivial) fun row => ?_
      split
      · exact calls_io fun _ => trivial
      · exact calls_return _
    · exact calls_return _
  refine Calls.run_bind (Calls.forM fun p _ => ?_) fun _ => Calls.forM fun p hp => ?_
  · refine Calls.run_bind (calls_io fun _ => trivial) fun deleted => ?_
    cases deleted
    · exact calls_throw _
    · exact calls_return _
  · refine calls_withLock (fun _ => trivial) (fun _ => trivial)
      (Calls.run_bind (calls_io fun _ hid => absurd hid (others p hp)) fun stored => ?_)
    cases stored
    · exact calls_throw _
    · exact calls_return _

end Background

lemma follows_program (op : Op) :
    Follows (down r) (program cfg op) ⟨op, false⟩ fun _ _ => True := by
  cases op with
  | createPeer => exact follows_answerPeer follows_createPeer
  | updatePeer => exact follows_answerPeer (follows_updatePeer rfl)
  | deletePeer => exact follows_answerPeer (follows_deletePeer rfl)
  | syncPendingPeerChanges => exact follows_answerNone follows_syncPendingPeerChanges
  | syncNftPorts => exact follows_answerNone (follows_harmless harmless_syncNftPorts)
  | recover => exact follows_answerNone follows_recover

end Programs

section Service
variable {s s' : System} {l : Label} {op : Op} {m : Watch}

/-- No task is past a read of the row: each looks at it again before it sets its status. -/
def Settled (r : Peer) (s : System) : Prop :=
  ∀ (i : ℕ) op p, s.tasks[i]? = some (op, p) → Follows (down r) p ⟨op, false⟩ fun _ _ => True

lemma settled_of_quiet (h : s.quiet) : Settled r s := by
  intro i op p hi
  cases p with
  | done a => trivial
  | call e next => exact absurd (h _ (List.mem_of_getElem? hi)) (by simp [inFlight])

/-- The row is down, and a task counts on its absence only where it is gone. -/
def KeptDown (r : Peer) : System → Prop :=
  Keeps (down r) (fun op m _ => m.op = op) fun w μ =>
    Down r w.toTables ∧ ∀ i, (μ i).gone → Absent r w.toTables

lemma down_live (m : Watch) (e : Call) : ∃ a, downAnswer r m e a := by
  cases e with
  | lock l => exact ⟨(), trivial⟩
  | unlock l => exact ⟨(), trivial⟩
  | resolveEndpoint endpoint => exact ⟨.error .registryMismatch, trivial⟩
  | io c => exact ⟨.error .registryMismatch, by cases c <;> trivial⟩

lemma downNext_op (e : Call) (a : Answer e) : (downNext r m e a).op = m.op := by
  cases e with
  | io c => cases a <;> rfl
  | _ => rfl

/-- What a task was started for stays with its mode. -/
lemma mode_op {p : Program Call Answer Reply}
    (h : Follows (down r) p m fun m' _ => m'.op = op) : m.op = op :=
  h.tag_eq Watch.op (fun _ => downNext_op) down_live

lemma follows_op {p : Program Call Answer Reply}
    (h : Follows (down r) p ⟨op, false⟩ fun _ _ => True) :
    Follows (down r) p ⟨op, false⟩ fun m _ => m.op = op :=
  (h.keeping (I := fun m => m.op = op) rfl fun _ e a hm => (downNext_op e a).trans hm).mono
    fun _ _ h => h.2

lemma settled_keptDown (h : Settled r s) (hd : Down r s.world.toTables) : KeptDown r s := by
  refine ⟨fun i => (s.tasks[i]?.map fun task => ⟨task.1, false⟩).getD ⟨.recover, false⟩,
    ⟨fun i op p hi => ?_, fun i hi => ?_⟩, hd, fun i hg => ?_⟩
  · rw [hi]
    exact follows_op (h i op p hi)
  · simp [List.getElem?_eq_none hi, down]
  · cases hi : s.tasks[i]? <;> simp [hi] at hg

lemma absent_of_row? {t : Tables} (h : (t.row? r.peerId).isSome = false) : Absent r t :=
  row?_none (by simpa using h)

lemma sparesCall_error {w : World} {c : Io} {error : PeerError} :
    sparesCall r op w (.io c) (.error error) =
      !(decide (op = .deletePeer r.asn r.peerName) && dismantles c && (w.row? r.peerId).isSome) := by
  cases c <;> rfl

/-- A task that counts on the absence after a call did so before, or failed to take the row down. -/
lemma gone_next {w : World} {e : Call} {a : Answer e} (h : (downNext r m e a).gone)
    (spared : sparesCall r m.op w e a) : m.gone ∨ Absent r w.toTables := by
  cases e with
  | io c =>
    cases a with
    | ok v => exact .inl h
    | error error =>
      by_cases hg : m.gone
      · exact .inl hg
      · right
        have here : decide (m.op = .deletePeer r.asn r.peerName) && dismantles c := by
          simpa [downNext, hg] using h
        rw [sparesCall_error, here] at spared
        exact absent_of_row? (by simpa using spared)
  | _ => exact .inl h

theorem keptDown_step (h : KeptDown r s) (hi : Identified s.world.toTables)
    (known : Known s.world.toTables r) (hl : spares cfg r s l) (hs : step cfg l s = some s') :
    KeptDown r s' := by
  refine obeying_step h hs ?_ ?_ ?_ ?_ ?_
  · rintro i o rfl μ op e next a w' hob ht ⟨hd, hg⟩ hx
    have hop : (μ i).op = op := mode_op (hob.follows i op _ ht)
    have spared : sparesCall r (μ i).op s.world e a := by
      simpa only [spares, ht, hx, hop] using hl
    have allowed := hob.allowed ht
    refine ⟨answer_exec hi known hd spared hx, hd.exec (hg i) allowed hx, fun j hj => ?_⟩
    rcases eq_or_ne j i with rfl | hji
    · rw [Function.update_self] at hj
      exact ((gone_next hj spared).elim (hg j) id).exec allowed hx
    · rw [Function.update_of_ne hji] at hj
      exact (hg j hj).exec allowed hx
  · rintro op rfl - - μ hob ⟨hd, hg⟩
    refine ⟨⟨op, false⟩, follows_op (follows_program op), hd, fun j hj => ?_⟩
    rcases eq_or_ne j s.tasks.length with rfl | hji
    · rw [Function.update_self] at hj
      cases hj
    · rw [Function.update_of_ne hji] at hj
      exact hg j hj
  · rintro peerId status rfl μ - ⟨hd, hg⟩
    have other : peerId ≠ r.peerId := by simpa [spares] using hl
    have same : ∀ q ∈ (s.world.updateRow peerId fun row => { row with status }).2.peers,
        q.peerId = r.peerId → q ∈ s.world.peers := fun q hq hid => by
      obtain ⟨p, hp, hpq, rfl | ⟨hp', -⟩⟩ :=
        row_updateRow (f := fun row => { row with status }) (fun _ => rfl) hq
      · exact hp
      · exact absurd (hp'.symm.trans (hpq.trans hid)) other
    exact ⟨fun q hq hid => hd q (same q hq hid) hid,
      fun j hj q hq hid => hg j hj q (same q hq hid) hid⟩
  · rintro peerId rfl μ - ⟨hd, hg⟩
    exact ⟨fun q hq => hd q (row_deleteRow hq), fun j hj q hq => hg j hj q (row_deleteRow hq)⟩
  · rintro rfl μ - ⟨hd, hg⟩
    refine ⟨⟨.recover, false⟩, follows_op (follows_program .recover), hd, fun j hj => ?_⟩
    rcases eq_or_ne j 0 with rfl | hj0
    · rw [Function.update_self] at hj
      cases hj
    · rw [Function.update_of_ne hj0] at hj
      cases hj

/-- From a state in which the row is disabled and no task is past a read of it: along every run off
the two paths the row stays disabled, until it is deleted. -/
theorem stays_disabled {w : World} (ids : Identified w.toTables)
    (before : Reaches (step cfg) (fun _ _ => True) (System.stopped w) s)
    (here : r ∈ s.world.peers) (disabled : r.status = .disabled) (settled : Settled r s)
    (run : Reaches (step cfg) (fun u l => spares cfg r u l) s s') :
    ∀ q ∈ s'.world.peers, q.peerId = r.peerId → q.status = .disabled ∨ q.status = .deleting := by
  have hi : Identified s.world.toTables := identified_reaches ids before
  have start : KeptDown r s := by
    refine settled_keptDown settled fun q hq hid => ?_
    rw [row_unique hi hq here hid]
    exact enabled_false.mpr (.inl disabled)
  obtain ⟨μ, -, hd, -⟩ : KeptDown r s' := by
    refine run.invariant_with start (K := fun u => Identified u.world.toTables ∧
      Known u.world.toTables r) (fun u hu => ⟨?_, ?_⟩) fun u l v hK hu hl hs =>
        keptDown_step hu hK.1 hK.2 hl hs
    · exact identified_reaches ids (before.trans (hu.mono fun _ _ _ => trivial))
    · exact Known.mono (reaches_born hu) (hi.rowBorn r here)
  exact fun q hq hid => enabled_false.mp (hd q hq hid)

end Service

section Sample
open OperationEffects

def disabledRow : Peer := Recovery.sampleRow 2 "b" .disabled

def sampleUpdate (peerName : String) : Op :=
  .updatePeer 4242421111 peerName ⟨"new key"⟩ none none none

/-- A restart, an update of the other peer and a pass of the listener over what they left. -/
theorem stays_disabled_sample : ∃ t,
    Reaches (step sampleConfig) (fun u l => spares sampleConfig disabledRow u l)
      (System.stopped servedWorld) t ∧ disabledRow ∈ t.world.peers ∧
    ∀ q ∈ t.world.peers, q.peerId = 2 → q.status = .disabled ∨ q.status = .deleting := by
  have run : ((steps (guarded (step sampleConfig) fun u l => spares sampleConfig disabledRow u l)
      ([.restart] ++ runs 0 18 ++ [.start (sampleUpdate "a")] ++ runs 1 12 ++
        [.start .syncPendingPeerChanges] ++ runs 2 46) (System.stopped servedWorld)).map
      fun t => decide (disabledRow ∈ t.world.peers)) = some true := by
    decide +kernel
  obtain ⟨t, ht, hrow⟩ := Option.map_eq_some_iff.mp run
  have reaches := steps_guarded_reaches ht
  exact ⟨t, reaches, of_decide_eq_true hrow, stays_disabled (r := disabledRow)
    servedWorld_identified .refl (by decide) rfl (settled_of_quiet fun _ h => by cases h) reaches⟩

/-- A restart and an update by the owner, with no statement of an administrator and no call failing:
the disabled peer is active. -/
theorem update_activates_disabled : ∃ t,
    Reaches (step sampleConfig) (fun _ l => ∀ status, l ≠ .sqlStatus 2 status ∧ l ≠ .sqlDelete 2)
      (System.stopped servedWorld) t ∧
    Identified servedWorld.toTables ∧ disabledRow ∈ servedWorld.peers ∧
    disabledRow.status = .disabled ∧ ∃ q ∈ t.world.peers, q.peerId = 2 ∧ q.status = .active := by
  have run : ((steps (step sampleConfig)
      ([.restart] ++ runs 0 18 ++ [.start (sampleUpdate "b")] ++ runs 1 12)
      (System.stopped servedWorld)).map fun t =>
        t.world.peers.any fun q => q.peerId = 2 ∧ q.status = .active) = some true := by
    decide +kernel
  obtain ⟨t, ht, hany⟩ := Option.map_eq_some_iff.mp run
  obtain ⟨q, hq, hrow⟩ := List.any_eq_true.mp hany
  refine ⟨t, steps_reaches (Schedule.of_forall fun l hl _ status => ?_) ht, servedWorld_identified,
    by decide, rfl, q, hq, of_decide_eq_true hrow⟩
  simp only [runs, List.mem_append, List.mem_singleton, List.mem_replicate] at hl
  rcases hl with ((rfl | ⟨-, rfl⟩) | rfl) | ⟨-, rfl⟩ <;> simp

end Sample

end Autopeer.DisabledPeer
