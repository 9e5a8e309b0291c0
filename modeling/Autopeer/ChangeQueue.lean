import Autopeer.OperationEffects

/-! The queue of change events when nothing fails and nobody else writes. A pass settles every row
that its events refer to, so the events of its own writes ask for no further write. -/
namespace Autopeer.ChangeQueue
open Ipv6 PeerData BirdGeneration ProgramTree ProgramRuns ManagerWorld ManagerPrograms ManagerSystem
open ManagerEffects InterfaceEffects Recovery OperationEffects

variable {cfg : Config} {dns : ℕ → String → SocketAddr} {w w' : World} {k : ℕ} {peerId : UInt32}

section Rules
variable {α β : Type}

/-- The world and the number of calls so far. -/
abbrev Timed := World × ℕ

/-- The outcome of the `k`-th call where everything works; `dns` answers the queries. -/
def smooth (dns : ℕ → String → SocketAddr) (k : ℕ) : Call → Outcome
  | .resolveEndpoint text => .resolved (dns k text)
  | _ => .ok

def smoothly (cfg : Config) (dns : ℕ → String → SocketAddr) (e : Call) (s : Timed) :
    Option (Answer e × Timed) :=
  (exec cfg (smooth dns s.2 e) e s.1).map fun x => (x.1, (x.2, s.2 + 1))

/-- From `w` the action ends well, whatever calls came before. -/
def Goes (cfg : Config) (dns : ℕ → String → SocketAddr) (w : World) (x : Manager α)
    (Q : α → World → Prop) : Prop :=
  ∀ k, Returns (smoothly cfg dns) (w, k) x fun a v => Q a v.1

variable {Q : α → World → Prop} {Q' : β → World → Prop}

lemma goes_return {a : α} (h : Q a w) : Goes cfg dns w (return a : Manager α) Q := fun _ =>
  returns_pure h

lemma Goes.bind {x : Manager α} {f : α → Manager β}
    (h : Goes cfg dns w x fun a v => Goes cfg dns v (f a) Q') : Goes cfg dns w (x >>= f) Q' :=
  fun k => Returns.bind ((h k).mono fun _ v hv => hv v.2)

lemma Goes.mono {x : Manager α} {P : α → World → Prop} (h : Goes cfg dns w x Q)
    (hQ : ∀ a v, Q a v → P a v) : Goes cfg dns w x P := fun k => (h k).mono fun a v => hQ a v.1

lemma Goes.attempt {x : Manager α} {Q : Except PeerError α → World → Prop}
    (h : Goes cfg dns w x fun a v => Q (.ok a) v) : Goes cfg dns w (attempt x) Q := fun k =>
  Returns.attempt (h k)

lemma goes_io {c : Io} {v : c.Value} {Q : c.Value → World → Prop}
    (h : effect cfg c w = (.ok v, w')) (hQ : Q v w') : Goes cfg dns w (io c) Q := by
  intro k
  refine ⟨v, (w', k + 1), ?_, hQ⟩
  have answer : smoothly cfg dns (.io c) (w, k) = some (.ok v, (w', k + 1)) := by
    simp only [smoothly, smooth, exec, h, Option.map_some]
  change (smoothly cfg dns (.io c) (w, k)).bind _ = _
  rw [answer]
  rfl

lemma goes_effect {c : Io} {v : c.Value} {Q : c.Value → World → Prop}
    (h : (effect cfg c w).1 = .ok v) (hQ : Q v (effect cfg c w).2) : Goes cfg dns w (io c) Q :=
  goes_io (Prod.ext h rfl) hQ

lemma goes_withLock {l : Lock} {body : Manager α} (hl : l ∉ w.locks)
    (h : Goes cfg dns { w with locks := l :: w.locks } body fun a v =>
      v.locks = l :: w.locks ∧ Q a { v with locks := w.locks }) :
    Goes cfg dns w (withLock l body) Q := by
  intro k
  obtain ⟨a, v, hrun, hlocks, hq⟩ := h (k + 1)
  refine ⟨a, ({ v.1 with locks := w.locks }, v.2 + 1), ?_, hq⟩
  change (smoothly cfg dns (.lock l) (w, k)).bind _ = _
  simp only [smoothly, smooth, exec, if_neg hl, Option.map_some, Option.bind_some]
  rw [runWith_bind, hrun]
  simp [runWith, smoothly, smooth, exec, hlocks]

lemma goes_resolveOptional {text : Option String} {Q : Option SocketAddr → World → Prop}
    (h : ∀ address, Q address w) : Goes cfg dns w (resolveOptional text) Q := by
  cases text with
  | none => exact goes_return (h none)
  | some text => exact fun k => ⟨some (dns k text), (w, k + 1), rfl, h _⟩

end Rules

section Parts

/-- The tables and the locks are as before. -/
def Still (w v : World) : Prop := v.toTables = w.toTables ∧ v.locks = w.locks

lemma Still.trans {u v x : World} (huv : Still u v) (hvx : Still v x) : Still u x :=
  ⟨hvx.1.trans huv.1, hvx.2.trans huv.2⟩

lemma syncBirdConfigs_goes (names : NamesValid w.peers) (hl : .bird ∉ w.locks) :
    Goes cfg dns w syncBirdConfigs fun _ v => Still w v := by
  have names' : NamesValid (w.listPeers cfg) := fun p hp => names p (mem_listPeers.mp hp)
  have hok : (w.bird.sync cfg.localAsn (w.listPeers cfg) false).1 = .ok () := by
    simp only [Bird.sync, desiredGeneration_ok names']
    split <;> rfl
  exact Goes.bind (goes_io rfl (goes_withLock hl (goes_effect hok ⟨rfl, rfl, rfl⟩)))

lemma syncNftPorts_goes (hl : .nft ∉ w.locks) :
    Goes cfg dns w syncNftPorts fun _ v => Still w v :=
  Goes.bind (goes_io rfl (goes_withLock hl (goes_io rfl ⟨rfl, rfl, rfl⟩)))

lemma applyWireguard_goes (p : Peer) :
    Goes cfg dns w (applyWireguard p) fun _ v => Still w v := by
  have link : (linked p w).hasIface p.ifaceName = true := linked_hasIface
  refine Goes.bind (goes_io rfl (Goes.bind (goes_resolveOptional fun endpoint => ?_)))
  have configured : effect cfg (.configurePeer p.ifaceName p.listenPort p.pubkey endpoint)
      (linked p w) = (.ok (), (linked p w).setIface p.ifaceName fun i =>
        { i with pubkey := some p.pubkey, endpoint, listenPort := some p.listenPort }) :=
    if_pos link
  refine Goes.bind (goes_io configured (@goes_io _ _ _ (wired p endpoint w) _ _ _ (if_pos ?_) ?_))
  · rw [setIface_hasIface (by simp)]
    exact link
  · exact ⟨wired_toTables, wired_locks⟩

lemma applyPeer_goes (p : Peer) (names : NamesValid w.peers) (hl : .bird ∉ w.locks) :
    Goes cfg dns w (applyPeer p) fun _ v => Still w v := by
  refine Goes.bind ((applyWireguard_goes p).mono fun _ v hv => ?_)
  refine (syncBirdConfigs_goes ?_ ?_).mono fun _ u hu => hv.trans hu
  · rw [hv.1]
    exact names
  · rw [hv.2]
    exact hl

lemma removeExternalState_goes (p : Peer) (names : NamesValid w.peers) (hl : .bird ∉ w.locks) :
    Goes cfg dns w (removeExternalState p) fun _ v => Still w v :=
  Goes.bind ((syncBirdConfigs_goes names hl).mono fun _ _ hv => goes_io rfl hv)

/-- The row of this id, if there is one, asks for no further write. -/
def Settled (peerId : UInt32) (w : World) : Prop :=
  ∀ r ∈ w.peers, r.peerId = peerId → r.status = .active ∨ r.status = .disabled

/-- What the handling of an event about this id leaves. -/
structure Handled (peerId : UInt32) (w v : World) : Prop where
  rows : ∀ r ∈ v.peers, r ∈ w.peers ∨ (r.peerId = peerId ∧ r.status = .active)
  own : OwnRows v.peers
  settled : Settled peerId v
  events : ∀ e ∈ v.events, e ∈ w.events ∨ (e.peer.peerId = peerId ∧ ¬Settled peerId w)
  locks : v.locks = w.locks

/-- A row that was settled stays settled. -/
lemma Handled.still {id : UInt32} {v : World} (h : Handled peerId w v) (hs : Settled id w) :
    Settled id v := by
  intro r hr hid
  rcases h.rows r hr with hr | ⟨-, ha⟩
  · exact hs r hr hid
  · exact .inl ha

lemma Handled.of_still {v : World} (own : OwnRows w.peers) (hs : Settled peerId w)
    (hv : Still w v) : Handled peerId w v := by
  obtain ⟨tables, locks⟩ := hv
  refine ⟨fun r hr => .inl ?_, ?_, fun r hr => ?_, fun e he => .inl ?_, locks⟩
  · rwa [tables] at hr
  · rw [tables]
    exact own
  · rw [tables] at hr
    exact hs r hr
  · rwa [tables] at he

lemma Handled.then {v x : World} (h : Handled peerId w v) (hx : Still v x) :
    Handled peerId w x := by
  obtain ⟨tables, locks⟩ := hx
  refine ⟨?_, ?_, ?_, ?_, locks.trans h.locks⟩
  · rw [tables]
    exact h.rows
  · rw [tables]
    exact h.own
  · rw [Settled, tables]
    exact h.settled
  · rw [tables]
    exact h.events

lemma Handled.after {v x : World} (hv : Still w v) (h : Handled peerId v x) :
    Handled peerId w x := by
  obtain ⟨tables, locks⟩ := hv
  have settled : Settled peerId v ↔ Settled peerId w := by rw [Settled, Settled, tables]
  refine ⟨?_, h.own, h.settled, ?_, h.locks.trans locks⟩
  · rw [← tables]
    exact h.rows
  · rw [← tables, ← settled]
    exact h.events

/-- The row is set Active, which enqueues one event. -/
lemma handled_activate {row : Peer} {t : Tables} (own : OwnRows w.peers)
    (hr : w.row? peerId = some row) (ha : row.status ≠ .active) (hd : row.status ≠ .disabled)
    (ht : t = (w.replaceRow peerId activated).enqueue "UPDATE" (activated row)) :
    Handled peerId w (w.withTables t) := by
  subst ht
  obtain ⟨hm, rfl⟩ := row?_some hr
  have start : RowIs row w.toTables w.toTables := .of_mem own.ids hm
  have now : RowIs (activated row) w.toTables ((w.replaceRow row.peerId activated).enqueue
      "UPDATE" (activated row)) := start.update rfl
  have only : ∀ r ∈ (w.withTables ((w.replaceRow row.peerId activated).enqueue "UPDATE"
      (activated row))).peers, r = activated row ∨ (r ∈ w.peers ∧ r.peerId ≠ row.peerId) :=
    fun r hr => (now.mem r).mp hr
  refine ⟨fun r hr => ?_, ⟨now.ids, fun r hr => ?_⟩, fun r hr hid => ?_, fun e he => ?_,
    rfl⟩
  · rcases only r hr with rfl | ⟨hr, -⟩
    · exact .inr ⟨rfl, rfl⟩
    · exact .inl hr
  · rcases only r hr with rfl | ⟨hr, -⟩
    · exact own.names row hm
    · exact own.names r hr
  · rcases only r hr with rfl | ⟨-, hne⟩
    · exact .inl rfl
    · exact absurd hid hne
  · rcases List.mem_append.mp he with he | he
    · exact .inl he
    · rw [List.mem_singleton.mp he]
      refine .inr ⟨rfl, fun hs => ?_⟩
      rcases hs row hm rfl with h | h
      · exact ha h
      · exact hd h

/-- The row is deleted, which enqueues one event. -/
lemma handled_delete {row : Peer} {t : Tables} (own : OwnRows w.peers)
    (hr : w.row? peerId = some row) (hd : row.status = .deleting)
    (ht : t = (w.removeRow peerId).enqueue "DELETE" row) :
    Handled peerId w (w.withTables t) := by
  subst ht
  obtain ⟨hm, rfl⟩ := row?_some hr
  have start : RowIs row w.toTables w.toTables := .of_mem own.ids hm
  have now : RowGone row.peerId w.toTables ((w.removeRow row.peerId).enqueue "DELETE" row) :=
    start.remove
  have only : ∀ r ∈ (w.withTables ((w.removeRow row.peerId).enqueue "DELETE" row)).peers,
      r ∈ w.peers ∧ r.peerId ≠ row.peerId := fun r hr => (now.mem r).mp hr
  refine ⟨fun r hr => .inl (only r hr).1, ⟨now.ids, fun r hr => own.names r (only r hr).1⟩,
    fun r hr hid => absurd hid (only r hr).2, fun e he => ?_, rfl⟩
  rcases List.mem_append.mp he with he | he
  · exact .inl he
  · rw [List.mem_singleton.mp he]
    refine .inr ⟨rfl, fun hs => ?_⟩
    have := hs row hm rfl
    simp [hd] at this

theorem settleRow_goes (snapshot : Peer) (own : OwnRows w.peers) (hl : .bird ∉ w.locks) :
    Goes cfg dns w (settleRow snapshot (w.row? peerId)) fun _ v => Handled peerId w v := by
  have names : NamesValid w.peers := fun p hp _ => own.names p hp
  cases hr : w.row? peerId with
  | none =>
    refine (removeExternalState_goes snapshot names hl).mono fun _ v hv => ?_
    exact Handled.of_still own (fun r hm hid => absurd hid (row?_none hr r hm)) hv
  | some row =>
    obtain ⟨hm, hid⟩ := row?_some hr
    have only : ∀ r ∈ w.peers, r.peerId = peerId → r = row := fun r hr' hid' =>
      List.inj_on_of_nodup_map own.ids hr' hm (hid'.trans hid.symm)
    simp only [settleRow]
    split
    · rename_i he
      refine Goes.bind ((applyPeer_goes row names hl).mono fun _ v hv => ?_)
      split
      · rename_i ha
        have found : v.row? row.peerId = some row := by rw [hv.1, hid, hr]
        have own' : OwnRows v.peers := by rw [hv.1]; exact own
        rcases updateRow_cases v.toTables row.peerId activated with ⟨hn, -⟩ | ⟨q, hq, hu⟩
        · rw [found] at hn
          cases hn
        · obtain rfl := Option.some.inj (found.symm.trans hq)
          have stored : effect cfg (.setStatus row.peerId .active) v =
              (.ok true, v.withTables ((v.replaceRow row.peerId activated).enqueue "UPDATE"
                (activated row))) := by
            change (Except.ok (v.updateRow row.peerId activated).1,
              v.withTables (v.updateRow row.peerId activated).2) = _
            rw [hu]
          refine Goes.bind (goes_io stored (goes_return ?_))
          rw [← hid]
          exact Handled.after hv (handled_activate own' found ha he.2 rfl)
      · rename_i ha
        refine goes_return (Handled.of_still own (fun r hr' hid' => .inl ?_) hv)
        rw [only r hr' hid']
        exact not_not.mp ha
    · rename_i he
      split
      · rename_i hd
        refine Goes.bind ((removeExternalState_goes row names hl).mono fun _ v hv => ?_)
        have found : v.row? row.peerId = some row := by rw [hv.1, hid, hr]
        have own' : OwnRows v.peers := by rw [hv.1]; exact own
        rcases deleteRow_cases v.toTables row.peerId with ⟨hn, -⟩ | ⟨q, hq, hu⟩
        · rw [found] at hn
          cases hn
        · obtain rfl := Option.some.inj (found.symm.trans hq)
          have deleted : effect cfg (.deletePeer row.peerId) v =
              (.ok true, v.withTables ((v.removeRow row.peerId).enqueue "DELETE" row)) := by
            rw [effect, hu]
          refine Goes.bind (goes_io deleted (goes_return ?_))
          rw [← hid]
          exact Handled.after hv (handled_delete own' found hd rfl)
      · rename_i hd
        refine (removeExternalState_goes row names hl).mono fun _ v hv => ?_
        refine Handled.of_still own (fun r hr' hid' => .inr ?_) hv
        rw [only r hr' hid']
        by_contra hdis
        exact he ⟨hd, hdis⟩

/-- Handling one event: its row is settled, and only an unsettled row is written. -/
theorem applyPeerChange_goes (change : PeerChange) (own : OwnRows w.peers) (hl : w.locks = []) :
    Goes cfg dns w (applyPeerChange change) fun _ v => Handled change.peer.peerId w v := by
  let taken : World :=
    { w with locks := .peer change.peer.asn change.peer.peerName :: w.locks }
  refine goes_withLock (by simp [hl]) (Goes.bind (@goes_io _ _ _ taken _ _ _ rfl ?_))
  refine Goes.bind ((settleRow_goes (w := taken) change.peer own (by simp [taken, hl])).mono
    fun _ v hv => ?_)
  refine (syncNftPorts_goes (by rw [hv.locks]; simp [taken, hl])).mono fun _ u hu => ?_
  have done := hv.then hu
  exact ⟨done.locks, ⟨done.rows, done.own, done.settled, done.events, rfl⟩⟩

end Parts

section Pass

/-- One listed event is handled and leaves the queue. -/
lemma processChange_goes (change : PeerChange) (own : OwnRows w.peers) (hl : w.locks = []) :
    Goes cfg dns w (processChange change) fun error v => error = none ∧
      Handled change.peer.peerId w v ∧ change ∉ v.events := by
  refine Goes.bind (Goes.attempt ((applyPeerChange_goes change own hl).mono fun _ v hv => ?_))
  refine Goes.bind (Goes.attempt (goes_io rfl (goes_return ⟨rfl, ⟨hv.rows, hv.own, hv.settled,
    fun e he => hv.events e (List.mem_of_mem_filter he), hv.locks⟩, fun he => ?_⟩)))
  have ne := List.of_mem_filter he
  simp at ne

/-- What holds before each round of a pass that began in `w`. -/
structure Underway (w v : World) (rest : List PeerChange) : Prop where
  own : OwnRows v.peers
  locks : v.locks = []
  /-- A settled row was settled at the start or one of the handled events refers to it. -/
  keeps : ∀ id, Settled id w → Settled id v
  queued : ∀ e ∈ v.events, e ∈ rest ∨ Settled e.peer.peerId v
  handled : ∀ e ∈ w.events, e ∈ rest ∨ Settled e.peer.peerId v
  quiet : (∀ e ∈ w.events, Settled e.peer.peerId w) → ∀ e ∈ v.events, e ∈ rest

lemma Underway.next {v x : World} {change : PeerChange} {rest : List PeerChange}
    (h : Underway w v (change :: rest)) (hc : change ∈ w.events)
    (hx : Handled change.peer.peerId v x) (gone : change ∉ x.events) : Underway w x rest := by
  have settles : ∀ e : PeerChange, e ∈ change :: rest ∨ Settled e.peer.peerId v →
      e ∈ rest ∨ Settled e.peer.peerId x := by
    intro e he
    rcases he with he | he
    · rcases List.mem_cons.mp he with rfl | he
      · exact .inr hx.settled
      · exact .inl he
    · exact .inr (hx.still he)
  refine ⟨hx.own, hx.locks.trans h.locks, fun id hid => hx.still (h.keeps id hid), fun e he => ?_,
    fun e he => settles e (h.handled e he), fun hs e he => ?_⟩
  · rcases hx.events e he with hold | ⟨hid, -⟩
    · exact settles e (h.queued e hold)
    · rw [hid]
      exact .inr hx.settled
  · rcases hx.events e he with hold | ⟨-, hopen⟩
    · rcases List.mem_cons.mp (h.quiet hs e hold) with rfl | he'
      · exact absurd he gone
      · exact he'
    · exact absurd (h.keeps _ (hs change hc)) hopen

lemma processChanges_goes {changes : List PeerChange} {v : World}
    (h : Underway w v changes) (sub : changes ⊆ w.events) :
    Goes cfg dns v (processChanges none changes) fun _ x => Underway w x [] := by
  induction changes generalizing v with
  | nil => exact goes_return h
  | cons change changes ih =>
    obtain ⟨hc, hsub⟩ := List.cons_subset.mp sub
    refine Goes.bind ((processChange_goes change h.own h.locks).mono fun error x hx => ?_)
    obtain ⟨rfl, handled, gone⟩ := hx
    exact ih (h.next hc handled gone) hsub

/-- A pass leaves only events that ask for no write, and none where it found only such. -/
theorem syncPendingPeerChanges_goes (own : OwnRows w.peers) (hl : w.locks = []) :
    Goes cfg dns w syncPendingPeerChanges fun _ v => Underway w v [] := by
  refine Goes.bind (goes_io rfl ?_)
  have listed : ∀ e, e ∈ w.listPeerChanges ↔ e ∈ w.events := fun e => List.mem_insertionSort _
  exact processChanges_goes ⟨own, hl, fun _ hid => hid, fun e he => .inl ((listed e).mpr he),
    fun e he => .inl ((listed e).mpr he), fun _ e he => (listed e).mpr he⟩
    fun e he => (listed e).mp he

/-- Two passes with no failure and no other writer empty the queue, and every row that an event
referred to is then Active, Disabled or deleted. -/
theorem syncPendingPeerChanges_twice (cfg : Config) (dns : ℕ → String → SocketAddr) (w : World)
    (k : ℕ) (own : OwnRows w.peers) (hl : w.locks = []) :
    ∃ w₁ k₁ w₂ k₂,
      runWith (smoothly cfg dns) syncPendingPeerChanges.run (w, k) = some (.ok (), (w₁, k₁)) ∧
      runWith (smoothly cfg dns) syncPendingPeerChanges.run (w₁, k₁) = some (.ok (), (w₂, k₂)) ∧
      w₂.events = [] ∧
      ∀ e, e ∈ w.events ∨ e ∈ w₁.events → ∀ r ∈ w₂.peers, r.peerId = e.peer.peerId →
        r.status = .active ∨ r.status = .disabled := by
  obtain ⟨_, ⟨w₁, k₁⟩, first, h₁⟩ := @syncPendingPeerChanges_goes cfg dns _ own hl k
  obtain ⟨_, ⟨w₂, k₂⟩, second, h₂⟩ :=
    @syncPendingPeerChanges_goes cfg dns _ h₁.own h₁.locks k₁
  have quiet : ∀ e ∈ w₁.events, Settled e.peer.peerId w₁ := fun e he =>
    (h₁.queued e he).resolve_left List.not_mem_nil
  have earlier : ∀ e ∈ w.events, Settled e.peer.peerId w₁ := fun e he =>
    (h₁.handled e he).resolve_left List.not_mem_nil
  refine ⟨w₁, k₁, w₂, k₂, first, second, ?_, fun e he => h₂.keeps _ ?_⟩
  · exact List.eq_nil_iff_forall_not_mem.mpr fun e he => List.not_mem_nil (h₂.quiet quiet e he)
  · rcases he with he | he
    · exact earlier e he
    · exact quiet e he

/-- Events of a peer to provision, of one to delete and of one that is gone. -/
theorem syncPendingPeerChanges_twice_sample :
    let events := sampleWorld.events ++
      [⟨2, "INSERT", sampleRow 1 "a" .provisioning⟩, ⟨3, "UPDATE", sampleRow 2 "b" .deleting⟩]
    ∃ w₁ k₁ w₂ k₂,
      runWith (smoothly sampleConfig fun _ _ => "192.0.2.1:51820") syncPendingPeerChanges.run
        ({ sampleWorld with events, nextEvent := 4 }, 0) = some (.ok (), (w₁, k₁)) ∧
      runWith (smoothly sampleConfig fun _ _ => "192.0.2.1:51820") syncPendingPeerChanges.run
        (w₁, k₁) = some (.ok (), (w₂, k₂)) ∧
      w₂.events = [] ∧
      ∀ e, e ∈ events ∨ e ∈ w₁.events → ∀ r ∈ w₂.peers, r.peerId = e.peer.peerId →
        r.status = .active ∨ r.status = .disabled :=
  syncPendingPeerChanges_twice _ _ _ 0 ⟨by decide, by decide⟩ rfl

end Pass

end Autopeer.ChangeQueue
