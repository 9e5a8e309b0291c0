import Autopeer.CreateCompensation
import Autopeer.UpdateAtomicity

/-! The addresses that the service has installed on the interface of a peer, over any history of
creates, updates and change events of that peer. Nothing ever removes an address. -/
namespace Autopeer.LocalAddress
open Ipv6 PeerData ProgramTree RunFailures ManagerWorld ManagerPrograms ManagerSystem
open ManagerEffects InterfaceEffects TableIdentity Recovery OperationEffects
open CreateCompensation UpdateAtomicity
open ManagerFootprints (calls_io calls_return calls_throw calls_withLock calls_attempt_bind
  calls_applyPeer)

variable {cfg : Config} {P : Call → Outcome → Prop} {w w' : World} {failed : List Call}
  {asn : UInt32} {peerName name : String} {p row old : Peer} {address : Ipv6Addr}
  {peerId : UInt32}

/-- The addresses on the interfaces of one name. -/
def installed (name : String) (w : World) : Set Ipv6Addr :=
  {a | ∃ i ∈ w.ifaces, i.name = name ∧ a ∈ i.addresses}

section Calls

lemma installed_ifaces {v : World} (h : v.ifaces = w.ifaces) :
    installed name v = installed name w := by rw [installed, installed, h]

lemma installed_addLink (other : String) : installed name (w.addLink other) = installed name w := by
  rw [World.addLink]
  split
  · rfl
  · ext a
    simp only [installed, List.mem_append, List.mem_singleton, Set.mem_ofPred_eq]
    constructor
    · rintro ⟨i, hi | rfl, hn, ha⟩
      · exact ⟨i, hi, hn, ha⟩
      · simp [newLink] at ha
    · rintro ⟨i, hi, hn, ha⟩
      exact ⟨i, .inl hi, hn, ha⟩

lemma installed_setIface {other : String} {f : Iface → Iface} (hn : ∀ i, (f i).name = i.name)
    (ha : ∀ i, (f i).addresses = i.addresses) :
    installed name (w.setIface other f) = installed name w := by
  ext a
  simp only [installed, Set.mem_ofPred_eq, mem_setIface]
  constructor
  · rintro ⟨i, ⟨hi, -⟩ | ⟨j, hj, -, rfl⟩, hname, hm⟩
    · exact ⟨i, hi, hname, hm⟩
    · exact ⟨j, hj, (hn j) ▸ hname, (ha j) ▸ hm⟩
  · rintro ⟨i, hi, hname, hm⟩
    by_cases ho : i.name = other
    · exact ⟨f i, .inr ⟨i, hi, ho, rfl⟩, (hn i).trans hname, (ha i).symm ▸ hm⟩
    · exact ⟨i, .inl ⟨hi, ho⟩, hname, hm⟩

/-- `address().add(..).replace()` inserts the address. -/
lemma installed_add (h : w.hasIface name = true) :
    installed name (w.setIface name fun i =>
      { i with addresses := i.addresses.filter (· ≠ address) ++ [address] }) =
        insert address (installed name w) := by
  ext a
  simp only [installed, Set.mem_ofPred_eq, Set.mem_insert_iff, mem_setIface]
  constructor
  · rintro ⟨i, ⟨hi, hne⟩ | ⟨j, hj, hjn, rfl⟩, hname, hm⟩
    · exact absurd hname hne
    · simp only [List.mem_append, List.mem_filter, List.mem_singleton] at hm
      rcases hm with ⟨hm, -⟩ | rfl
      · exact .inr ⟨j, hj, hjn, hm⟩
      · exact .inl rfl
  · rintro (rfl | ⟨i, hi, hname, hm⟩)
    · obtain ⟨i, hi, hname⟩ := hasIface_iff.mp h
      exact ⟨_, .inr ⟨i, hi, hname, rfl⟩, hname, by simp⟩
    · refine ⟨_, .inr ⟨i, hi, hname, rfl⟩, hname, ?_⟩
      by_cases ha : a = address <;> simp [hm, ha]

lemma installed_other {other : String} {f : Iface → Iface} (hn : ∀ i, (f i).name = i.name)
    (hne : other ≠ name) : installed name (w.setIface other f) = installed name w := by
  ext a
  simp only [installed, Set.mem_ofPred_eq]
  refine exists_congr fun i => and_congr_left fun h => ?_
  exact mem_setIface_of_ne hn (h.1 ▸ hne.symm)

/-- A call that works inserts at most one address, and only `configure_local_address` does. -/
lemma effect_installed {c : Io} (hc : c ≠ .deleteInterface name) :
    installed name (effect cfg c w).2 = installed name w ∨ ∃ a, c = .configureLocalAddress name a ∧
      installed name (effect cfg c w).2 = insert a (installed name w) := by
  cases c with
  | ensureWgInterface ifaceName peerId mtu =>
    left
    rw [effect, installed_setIface (by simp) (by simp), installed_addLink]
  | configurePeer ifaceName listenPort pubkey endpoint =>
    left
    rw [effect]
    split
    · exact installed_setIface (by simp) (by simp)
    · rfl
  | configureLocalAddress ifaceName a =>
    rw [effect]
    split
    · rename_i hi
      by_cases hn : ifaceName = name
      · subst hn
        exact .inr ⟨a, rfl, installed_add hi⟩
      · exact .inl (installed_other (by simp) hn)
    · exact .inl rfl
  | deleteInterface ifaceName =>
    left
    have hne : ifaceName ≠ name := fun h => hc (by rw [h])
    ext a
    simp only [installed, Set.mem_ofPred_eq, effect, mem_dropIface]
    refine exists_congr fun i => and_congr_left fun h => ?_
    exact and_iff_left (h.1 ▸ hne.symm)
  | nextPeerId => left; rw [effect]; split <;> rfl
  | reservePeer peer test => left; rw [effect]; split <;> [rfl; split <;> rfl]
  | updatePeerDesired peer => left; rw [effect]; split <;> rfl
  | _ => exact .inl rfl

lemma exec_installed {o : Outcome} {e : Call} {r : Answer e}
    (he : e ≠ .io (.deleteInterface name)) (h : exec cfg o e w = some (r, w')) :
    installed name w' = installed name w ∨
      ∃ a, e = .io (.configureLocalAddress name a) ∧ (∀ error, o ≠ .fail error) ∧
        installed name w' = insert a (installed name w) := by
  cases e with
  | lock l => exact .inl (by rw [exec_lock h]; rfl)
  | unlock l => exact .inl (by rw [exec_unlock h]; rfl)
  | resolveEndpoint text =>
    cases o <;> simp only [exec, reduceCtorEq, Option.some.injEq, Prod.mk.injEq] at h
    all_goals exact .inl (by rw [← h.2])
  | io c =>
    have done := @effect_installed cfg w name c fun hc => he (by rw [hc])
    cases o with
    | ok =>
      simp only [exec, Option.some.injEq] at h
      rw [h] at done
      rcases done with done | ⟨a, rfl, done⟩
      · exact .inl done
      · exact .inr ⟨a, rfl, by simp, done⟩
    | resolved _ => simp [exec] at h
    | fail error =>
      simp only [exec, Option.some.injEq, Prod.mk.injEq] at h
      exact .inl (by rw [← h.2])
    | late error =>
      have heff : w' = (effect cfg c w).2 := by
        cases c <;> simp only [exec, Option.some.injEq, Prod.mk.injEq, reduceCtorEq] at h
        all_goals exact h.2.symm
      rw [← heff] at done
      rcases done with done | ⟨a, rfl, done⟩
      · exact .inl done
      · exact .inr ⟨a, rfl, by simp, done⟩
    | half error =>
      cases c <;> simp only [exec, Option.some.injEq, Prod.mk.injEq, reduceCtorEq] at h
      exact .inl (by rw [← h.2, installed_addLink])
    | birdFails failure error =>
      cases c <;> simp only [exec, Option.map_eq_some_iff, Prod.mk.injEq, reduceCtorEq] at h
      obtain ⟨b, -, -, rfl⟩ := h
      exact .inl rfl

/-- Calls that do not remove the interface and put no other address on it. -/
theorem installed_runs {C : Call → Prop} {α : Type} {x : Manager α} {r : Except PeerError α}
    (h : Runs cfg P w x failed r w') (hx : Calls C x.run)
    (stays : ∀ e, C e → e ≠ .io (.deleteInterface name))
    (only : ∀ a o, C (.io (.configureLocalAddress name a)) → P (.io (.configureLocalAddress name a)) o →
      a = address ∨ ∃ error, o = .fail error)
    (hw : installed name w = {address}) : installed name w' = {address} := by
  refine Suffers.rel (I := fun v v' => installed name v = {address} → installed name v' = {address})
    h hx (fun _ => id) (fun _ _ _ huv hvx hu => hvx (huv hu)) (fun o e v r v' he ho hx hv => ?_) hw
  rcases exec_installed (stays e he) hx with same | ⟨a, rfl, hfail, added⟩
  · rw [same, hv]
  · rcases only a o he ho with rfl | ⟨error, rfl⟩
    · rw [added, hv, Set.insert_eq_of_mem (Set.mem_singleton _)]
    · exact absurd rfl (hfail error)

end Calls

section Operations

variable {A : Ipv6Addr → Prop}

/-- The calls of an operation that sets an interface up, with an address in `A`. -/
def Builds (A : Ipv6Addr → Prop) : Call → Prop
  | .io (.deleteInterface _) => False
  | .io (.configureLocalAddress _ a) => A a
  | _ => True

lemma builds_applyPeer (h : A p.localLlIp) : Calls (Builds A) (applyPeer p).run :=
  calls_applyPeer (fun _ hw => by cases hw <;> first | exact h | trivial)
    fun _ hb => by cases hb <;> trivial

lemma calls_compensateFailedUpdate (h : A p.localLlIp) :
    Calls (Builds A) (compensateFailedUpdate p).run := by
  refine calls_attempt_bind (calls_io trivial) fun r => ?_
  cases r with
  | error _ => exact calls_return _
  | ok _ =>
    refine calls_attempt_bind (builds_applyPeer h) fun r => ?_
    cases r with
    | error _ => exact calls_return _
    | ok _ => exact calls_attempt_bind (calls_io trivial) fun _ => calls_return _

lemma calls_updatePeer {pubkey : WgPubKey} {endpoint : Option (Option String)}
    {linkLocal : Option (Ipv6Addr × Ipv6Addr)} {mtu : Option (Option UInt16)} :
    Calls (Builds fun _ => True) (updatePeer cfg asn peerName pubkey endpoint linkLocal mtu).run := by
  refine calls_withLock trivial trivial (Calls.run_bind (calls_io trivial) fun row => ?_)
  refine Calls.run_bind ?_ fun old => ?_
  · cases row with
    | none => exact calls_throw _
    | some row => exact calls_return _
  · split
    · exact calls_throw _
    · refine Calls.run_bind (calls_io trivial) fun stored => ?_
      cases stored with
      | false => exact calls_throw _
      | true =>
        refine calls_attempt_bind (builds_applyPeer trivial) fun r => ?_
        cases r with
        | error _ => exact Calls.run_bind (calls_compensateFailedUpdate trivial) fun _ => calls_throw _
        | ok _ =>
          refine Calls.run_bind (calls_io trivial) fun active => ?_
          cases active
          · exact calls_throw _
          · exact calls_return _

/-- A call that would install another address than `address` fails without effect. -/
def Careful (P : Call → Outcome → Prop) (address : Ipv6Addr) : Prop :=
  ∀ name a o, P (.io (.configureLocalAddress name a)) o → a = address ∨ ∃ error, o = .fail error

/-- The address of a set-up interface is one of the installed ones. -/
lemma configured_installed (h : Configured p w) : p.localLlIp ∈ installed p.ifaceName w := by
  obtain ⟨endpoint, -, hi, hset⟩ := h
  obtain ⟨i, him, hn⟩ := hasIface_iff.mp hi
  exact ⟨i, him, hn, (hset i him hn).address⟩

/-- A new interface carries the address of its peer and no other. -/
lemma installed_wired {endpoint : Option SocketAddr} (h : w.hasIface p.ifaceName = false) :
    installed p.ifaceName (wired p endpoint w) = {p.localLlIp} := by
  have none : installed p.ifaceName w = ∅ := by
    rw [Set.eq_empty_iff_forall_notMem]
    rintro a ⟨i, hi, hn, -⟩
    rw [hasIface_iff.mpr ⟨i, hi, hn⟩] at h
    cases h
  have link : (linked p w).hasIface p.ifaceName = true := linked_hasIface
  rw [wired, installed_add (by rw [setIface_hasIface (by simp)]; exact link),
    installed_setIface (by simp) (by simp), linked, installed_setIface (by simp) (by simp),
    installed_addLink, none]
  exact insert_empty_eq _

lemma applyPeer_installed {r : Except PeerError Unit} (hn : w.hasIface p.ifaceName = false)
    (h : Runs cfg P w (applyPeer p) [] r w') : installed p.ifaceName w' = {p.localLlIp} := by
  obtain ⟨a, u, first, second, hwg, hbird, hf⟩ := suffers_run_bind.mp h
  obtain ⟨rfl, rfl⟩ := List.append_eq_nil_iff.mp hf.symm
  obtain ⟨_, rfl⟩ := (strict_applyWireguard p).works hwg
  obtain ⟨endpoint, -, rfl⟩ := applyWireguard_ends hwg.ends
  rw [installed_ifaces (v := w') (w := wired p endpoint w), installed_wired hn]
  rw [(syncBirdConfigs_runs hbird).1]

/-- A create without failures sets the row Active and its interface up. -/
lemma provision_works {t : Tables} (h : RowIs p t w.toTables) {r : Except PeerError Peer}
    (hrun : Runs cfg P w (provision asn p) [] r w') :
    r = .ok { p with status := .active } ∧ RowIs { p with status := .active } t w'.toTables ∧
      (w.hasIface p.ifaceName = false → installed p.ifaceName w' = {p.localLlIp}) := by
  obtain ⟨a, w₁, first, second, happly, hrest, hf⟩ := suffers_attempt_bind.mp hrun
  obtain ⟨rfl, rfl⟩ := List.append_eq_nil_iff.mp hf.symm
  obtain ⟨_, rfl⟩ := (strict_applyPeer p).works happly
  have row₁ : RowIs p t w₁.toTables := by rw [(applyPeer_runs happly).1.tables]; exact h
  obtain ⟨b, w₂, first, second, hnft, hlast, hf⟩ := suffers_attempt_bind.mp hrest
  obtain ⟨rfl, rfl⟩ := List.append_eq_nil_iff.mp hf.symm
  obtain ⟨_, rfl⟩ := strict_syncNftPorts.works hnft
  have same := (syncNftPorts_runs hnft).1
  have row₂ : RowIs p t w₂.toTables := by rw [same]; exact row₁
  obtain ⟨c, w₃, first, second, hset, hend, hf⟩ := suffers_attempt_bind.mp hlast
  obtain ⟨rfl, rfl⟩ := List.append_eq_nil_iff.mp hf.symm
  obtain ⟨only, ⟨rfl, row₃⟩ | ⟨e, -, hne, -⟩⟩ := setStatus_runs row₂ hset rfl
  · obtain ⟨-, rfl, rfl⟩ := suffers_done.mp hend
    refine ⟨rfl, row₃, fun hn => ?_⟩
    rw [installed_ifaces (v := w') (w := w₁), applyPeer_installed hn happly]
    rw [only, same]
    rfl
  · cases hne

/-- The row of the peer and its interface, as every operation should leave them. -/
structure Served (asn : UInt32) (peerName : String) (peerId : UInt32) (row : Peer) (w : World) :
    Prop where
  mem : row ∈ w.peers
  ids : (w.peers.map Peer.peerId).Nodup
  only : ∀ q ∈ w.peers, q.pair = (asn, peerName) → q.peerId = row.peerId
  idOf : row.peerId = peerId
  pairOf : row.pair = (asn, peerName)
  nameOf : row.ifaceName = wgpName peerId
  up : row.enabled = true
  address : installed (wgpName peerId) w = {row.localLlIp}

lemma Served.row? (h : Served asn peerName peerId row w) : w.row? peerId = some row := by
  rw [← h.idOf]
  exact row?_eq_of_mem h.ids h.mem

lemma Served.rowOf? (h : Served asn peerName peerId row w) :
    w.rowOf? asn peerName = some row := by
  cases hr : w.rowOf? asn peerName with
  | none => exact absurd h.pairOf (rowOf?_none hr row h.mem)
  | some q =>
    obtain ⟨hq, rfl, rfl⟩ := rowOf?_some hr
    rw [List.inj_on_of_nodup_map h.ids hq h.mem (h.only q hq rfl)]

/-- The row was replaced by one of the same identity; the new address is the installed one. -/
lemma Served.replace {row' : Peer} (h : Served asn peerName peerId row w)
    (hr : RowIs row' w.toTables w'.toTables) (hi : identity row' = identity row)
    (he : row'.enabled = true)
    (ha : installed (wgpName peerId) w' = {row'.localLlIp}) :
    Served asn peerName peerId row' w' where
  mem := (hr.mem _).mpr (.inl rfl)
  ids := hr.ids
  only := by
    intro q hq hp
    rcases (hr.mem q).mp hq with rfl | ⟨hq, -⟩
    · rfl
    · rw [identity_peerId hi]
      exact h.only q hq hp
  idOf := (identity_peerId hi).trans h.idOf
  pairOf := (identity_pair hi).trans h.pairOf
  nameOf := (identity_ifaceName hi).trans h.nameOf
  up := he
  address := ha

lemma enabled_active (p : Peer) : ({ p with status := .active } : Peer).enabled = true := by
  simp [Peer.enabled]

lemma stands_of_enabled (h : p.enabled = true) : p.status ≠ .deleting := by
  rintro hd
  simp [Peer.enabled, hd] at h

/-- An update that puts no other address on the interface. -/
theorem updatePeer_served (clean : Clean P) (h : Served asn peerName peerId row w)
    (careful : Careful P row.localLlIp) (one : failed.length ≤ 1) {pubkey : WgPubKey}
    {endpoint : Option (Option String)} {linkLocal : Option (Ipv6Addr × Ipv6Addr)}
    {mtu : Option (Option UInt16)} {r : Except PeerError Peer}
    (hrun : Runs cfg P w (updatePeer cfg asn peerName pubkey endpoint linkLocal mtu) failed r w') :
    ∃ row', Served asn peerName peerId row' w' := by
  have stays : installed (wgpName peerId) w' = {row.localLlIp} :=
    installed_runs hrun calls_updatePeer (fun e he heq => by rw [heq] at he; exact he)
      (fun a o _ ho => careful _ a o ho) h.address
  -- A set-up interface carries the desired address, so that is the one installed before.
  have desired : ∀ {d : Peer}, Configured d w' → identity d = identity row →
      installed (wgpName peerId) w' = {d.localLlIp} := by
    intro d hc hd
    have hm := configured_installed hc
    rw [identity_ifaceName hd, h.nameOf, stays, Set.mem_singleton_iff] at hm
    rw [stays, hm]
  cases updatePeer_runs clean h.ids h.rowOf? (stands_of_enabled h.up) one hrun with
  | stored _ hr iface =>
    have address := desired iface rfl
    exact ⟨_, h.replace hr rfl (enabled_active _) address⟩
  | kept _ hr => exact ⟨row, h.replace hr rfl h.up stays⟩
  | restored _ hr => exact ⟨_, h.replace hr rfl (enabled_active _) stays⟩
  | stranded _ hr iface => exact ⟨_, h.replace hr rfl rfl (desired iface rfl)⟩

lemma Served.locks {l : List Lock} (h : Served asn peerName peerId row w) :
    Served asn peerName peerId row { w with locks := l } :=
  ⟨h.mem, h.ids, h.only, h.idOf, h.pairOf, h.nameOf, h.up, h.address⟩

/-- Settling the row of a peer, whether its calls fail or not. -/
lemma settleRow_served {snapshot : Peer} (h : Served asn peerName peerId row w)
    {r : Except PeerError Unit} (hrun : Runs cfg P w (settleRow snapshot (some row)) failed r w') :
    ∃ row', Served asn peerName peerId row' w' := by
  have enabled : row.status ≠ .deleting ∧ row.status ≠ .disabled := by
    simpa [Peer.enabled] using h.up
  simp only [settleRow, if_pos enabled] at hrun
  obtain ⟨a, w₁, first, second, happly, hrest, rfl⟩ := suffers_run_bind.mp hrun
  have address : installed (wgpName peerId) w₁ = {row.localLlIp} :=
    installed_runs happly (builds_applyPeer (A := (· = row.localLlIp)) rfl)
      (fun e he heq => by rw [heq] at he; exact he) (fun a o ha _ => .inl ha) h.address
  have start : RowIs row w.toTables w.toTables := .of_mem h.ids h.mem
  have row₁ : RowIs row w.toTables w₁.toTables := by
    rw [(applyPeer_runs happly).1.tables]
    exact start
  cases a with
  | error e =>
    obtain ⟨-, -, rfl⟩ := suffers_done.mp hrest
    exact ⟨row, h.replace row₁ rfl h.up address⟩
  | ok _ =>
    rw [following_ok] at hrest
    split at hrest
    · obtain ⟨b, w₂, third, fourth, hset, hend, rfl⟩ := suffers_run_bind.mp hrest
      obtain ⟨only, ending⟩ := setStatus_runs row₁ hset rfl
      have same : w' = w₂ := by
        rcases ending with ⟨rfl, -⟩ | ⟨e, rfl, -⟩
        · exact (suffers_done.mp hend).2.2
        · exact (suffers_done.mp hend).2.2
      subst same
      have address₂ : installed (wgpName peerId) w' = {row.localLlIp} := by
        rw [installed_ifaces (w := w₁), address]
        rw [only]
        rfl
      rcases ending with ⟨-, row₂⟩ | ⟨e, -, -, row₂ | row₂, -⟩
      · exact ⟨_, h.replace row₂ rfl (enabled_active _) address₂⟩
      · exact ⟨_, h.replace row₂ rfl h.up address₂⟩
      · exact ⟨_, h.replace row₂ rfl (enabled_active _) address₂⟩
    · obtain ⟨-, -, rfl⟩ := suffers_done.mp hrest
      exact ⟨row, h.replace row₁ rfl h.up address⟩

theorem applyPeerChange_served (h : Served asn peerName peerId row w) {change : PeerChange}
    (hid : change.peer.peerId = peerId) {r : Except PeerError Unit}
    (hrun : Runs cfg P w (applyPeerChange change) failed r w') :
    ∃ row', Served asn peerName peerId row' w' := by
  obtain ⟨v, hbody, rfl⟩ := withLock_runs hrun
  suffices key : ∃ row', Served asn peerName peerId row' v by
    obtain ⟨row', hv⟩ := key
    exact ⟨row', hv.locks⟩
  have locked := h.locks (l := .peer change.peer.asn change.peer.peerName :: w.locks)
  obtain ⟨a, w₁, first, second, hget, hrest, rfl⟩ := suffers_run_bind.mp hbody
  rcases io_runs hget with ⟨found, rfl, -, he⟩ | ⟨e, o, rfl, -, -, hx⟩
  · obtain ⟨hf, rfl⟩ := Prod.mk.inj he
    obtain rfl : some row = found := by
      have hr := locked.row?
      rw [← hid] at hr
      exact hr ▸ Except.ok.inj hf
    obtain ⟨b, w₂, third, fourth, hsettle, hnft, rfl⟩ := suffers_run_bind.mp hrest
    obtain ⟨row', hs⟩ := settleRow_served locked hsettle
    cases b with
    | error e =>
      obtain ⟨-, -, rfl⟩ := suffers_done.mp hnft
      exact ⟨row', hs⟩
    | ok _ =>
      have same := (syncNftPorts_runs hnft).1
      refine ⟨row', ?_⟩
      rw [same]
      exact ⟨hs.mem, hs.ids, hs.only, hs.idOf, hs.pairOf, hs.nameOf, hs.up, hs.address⟩
  · obtain rfl := exec_reads (c := .getPeerById _) trivial hx
    obtain ⟨-, -, rfl⟩ := suffers_done.mp hrest
    exact ⟨row, locked⟩

end Operations

section Histories

/-- A create whose calls all work. -/
theorem createPeer_served (keys : Keys w.toTables) (other : asn ≠ cfg.localAsn)
    {pubkey : WgPubKey} {endpoint : Option String} {linkLocal : Option (Ipv6Addr × Ipv6Addr)}
    {mtu : Option UInt16} {reply : Peer} (fresh : w.hasIface (wgpName reply.peerId) = false)
    (h : Runs cfg P w (createPeer cfg asn peerName pubkey endpoint linkLocal mtu) [] (.ok reply)
      w') : Served asn peerName reply.peerId reply w' := by
  obtain ⟨v, hbody, rfl⟩ := withLock_runs h
  suffices key : Served asn peerName reply.peerId reply v from key.locks
  obtain ⟨a, w₁, first, second, hexists, hrest, hf⟩ := suffers_run_bind.mp hbody
  obtain ⟨rfl, rfl⟩ := List.append_eq_nil_iff.mp hf.symm
  rcases io_runs hexists with ⟨taken, rfl, -, he⟩ | ⟨e, o, -, hne, -⟩
  swap
  · cases hne
  obtain ⟨-, rfl⟩ := Prod.mk.inj he
  cases taken with
  | true =>
    obtain ⟨-, hr, -⟩ := suffers_done.mp hrest
    cases hr
  | false =>
    obtain ⟨b, w₂, first, second, hlock, hlast, hf⟩ := suffers_run_bind.mp hrest
    obtain ⟨rfl, rfl⟩ := List.append_eq_nil_iff.mp hf.symm
    obtain ⟨u, hreserve, rfl⟩ := withLock_runs hlock
    rcases reservePeer_runs other (by simp) hreserve with
      ⟨⟨e, rfl⟩, -⟩ | ⟨p, rfl, -, hn, pair, hp, free, rfl⟩
    · obtain ⟨-, hr, -⟩ := suffers_done.mp hlast
      cases hr
    · rw [following_ok, if_neg other] at hlast
      have hk' := Keys.inserted keys hp free hn
      have own : p ∈ (inserted p w.toTables).peers := by
        rw [inserted_peers hp]
        exact List.mem_append_right _ (List.mem_singleton_self p)
      have row : RowIs p (inserted p { w.toTables with peerSeq := w.peerSeq + 1 })
          (inserted p { w.toTables with peerSeq := w.peerSeq + 1 }) := .of_mem hk'.own.ids own
      obtain ⟨hr, row', address⟩ := provision_works row hlast
      cases hr
      refine ⟨(row'.mem _).mpr (.inl rfl), row'.ids, fun q hq hpair => ?_, rfl, pair, hn,
        enabled_active p, ?_⟩
      · rcases (row'.mem q).mp hq with rfl | ⟨hq, hne⟩
        · rfl
        · have hq' : q ∈ w.peers := (gone_inserted hp free q).mp ⟨hq, hne⟩
          exact absurd (hpair.trans pair.symm) (conflicts_false.mp free q hq').2.1
      · rw [← hn] at fresh ⊢
        exact address fresh

/-- The states after the operations of a history of one peer, each on its own: a create whose calls
all work, updates with at most one failing call that put no other address on the interface than the
row has, change events, and whatever happens elsewhere. -/
inductive History (cfg : Config) (asn : UInt32) (peerName : String) (peerId : UInt32) :
    World → Prop
  | created {P : Call → Outcome → Prop} {w w' : World} {pubkey : WgPubKey}
      {endpoint : Option String} {linkLocal : Option (Ipv6Addr × Ipv6Addr)} {mtu : Option UInt16}
      {reply : Peer} (keys : Keys w.toTables) (fresh : w.hasIface (wgpName peerId) = false)
      (other : asn ≠ cfg.localAsn) (id : reply.peerId = peerId)
      (run : Runs cfg P w (createPeer cfg asn peerName pubkey endpoint linkLocal mtu) []
        (.ok reply) w') : History cfg asn peerName peerId w'
  | updated {P : Call → Outcome → Prop} {w w' : World} {pubkey : WgPubKey}
      {endpoint : Option (Option String)} {linkLocal : Option (Ipv6Addr × Ipv6Addr)}
      {mtu : Option (Option UInt16)} {failed : List Call} {r : Except PeerError Peer} {row : Peer}
      (prior : History cfg asn peerName peerId w) (found : w.row? peerId = some row)
      (clean : Clean P) (careful : Careful P row.localLlIp) (one : failed.length ≤ 1)
      (run : Runs cfg P w (updatePeer cfg asn peerName pubkey endpoint linkLocal mtu) failed r w') :
      History cfg asn peerName peerId w'
  | applied {P : Call → Outcome → Prop} {w w' : World} {change : PeerChange} {failed : List Call}
      {r : Except PeerError Unit} (prior : History cfg asn peerName peerId w)
      (id : change.peer.peerId = peerId)
      (run : Runs cfg P w (applyPeerChange change) failed r w') : History cfg asn peerName peerId w'
  | elsewhere {w w' : World} (prior : History cfg asn peerName peerId w)
      (row : w'.row? peerId = w.row? peerId) (ids : (w'.peers.map Peer.peerId).Nodup)
      (pairs : (w'.peers.map Peer.pair).Nodup)
      (iface : installed (wgpName peerId) w' = installed (wgpName peerId) w) :
      History cfg asn peerName peerId w'

theorem History.served (h : History cfg asn peerName peerId w) :
    ∃ row, Served asn peerName peerId row w := by
  induction h with
  | created keys fresh other id run =>
    subst id
    exact ⟨_, createPeer_served keys other fresh run⟩
  | updated prior found clean careful one run ih =>
    obtain ⟨row, hs⟩ := ih
    obtain rfl := Option.some.inj (hs.row?.symm.trans found)
    exact updatePeer_served clean hs careful one run
  | applied prior id run ih =>
    obtain ⟨row, hs⟩ := ih
    exact applyPeerChange_served hs id run
  | elsewhere prior row ids pairs iface ih =>
    obtain ⟨r, hs⟩ := ih
    obtain ⟨hm, hid⟩ := row?_some (row.trans hs.row?)
    refine ⟨r, hm, ids, fun q hq hp => ?_, hs.idOf, hs.pairOf, hs.nameOf, hs.up,
      iface.trans hs.address⟩
    rw [List.inj_on_of_nodup_map pairs hq hm (hp.trans hs.pairOf.symm)]

/-- After each operation of such a history the interface carries the address of the row alone. -/
theorem installed_eq_row (h : History cfg asn peerName peerId w) :
    ∃ row, w.row? peerId = some row ∧ installed (wgpName peerId) w = {row.localLlIp} := by
  obtain ⟨row, hs⟩ := h.served
  exact ⟨row, hs.row?, hs.address⟩

end Histories

section Sample

/-- Every call works, but no address other than the automatic one can be installed. -/
def onlyAutomatic : Call → Outcome
  | .io (.configureLocalAddress _ a) =>
    if a = asnLinkLocal 4242420000 then .ok else .fail (.netlink "refused" "wgp3")
  | .resolveEndpoint _ => .resolved "192.0.2.1:51820"
  | _ => .ok

lemma careful_onlyAutomatic : Careful (fun e o => o = onlyAutomatic e) (asnLinkLocal 4242420000) := by
  rintro name a o rfl
  rw [onlyAutomatic]
  split
  · exact .inl ‹_›
  · exact .inr ⟨_, rfl⟩

lemma clean_onlyAutomatic : Clean fun e o => o = onlyAutomatic e := by
  intro c hc error h
  cases c <;> first | exact hc.elim | simp [onlyAutomatic] at h

/-- An update of the peer that `sampleCreate` creates. -/
def sampleReplace (linkLocal : Option (Ipv6Addr × Ipv6Addr)) : Manager Peer :=
  updatePeer sampleConfig 4242421112 "c" ⟨"new key"⟩ none linkLocal none

/-- A create and an update, both with automatic addresses. -/
theorem installed_eq_row_sample : ∃ w, History sampleConfig 4242421112 "c" 3 w ∧
    ∃ row, w.row? 3 = some row ∧ installed (wgpName 3) w = {row.localLlIp} := by
  have run : ((trial (exec sampleConfig) refused onlyAutomatic sampleCreate.run servedWorld).bind
      fun x => (trial (exec sampleConfig) refused onlyAutomatic (sampleReplace none).run
        x.2.2).map fun y => (x.1, x.2.1.toOption.map Peer.peerId,
          (x.2.2.row? 3).map Peer.localLlIp, y.1)) =
      some ([], some 3, some (asnLinkLocal 4242420000), []) := by
    decide +kernel
  obtain ⟨⟨failed, r, w⟩, hcreate, hrest⟩ := Option.bind_eq_some_iff.mp run
  obtain ⟨⟨failed', r', w'⟩, hupdate, he⟩ := Option.map_eq_some_iff.mp hrest
  simp only [Prod.mk.injEq, Option.map_eq_some_iff] at he
  obtain ⟨rfl, ⟨reply, hreply, hid⟩, ⟨row, hrow, haddress⟩, rfl⟩ := he
  obtain rfl : r = .ok reply := by
    cases r with
    | ok p => exact congrArg _ (Option.some.inj hreply)
    | error e => cases hreply
  have created : History sampleConfig 4242421112 "c" 3 w :=
    .created ⟨⟨by decide, by decide⟩, by decide⟩ (by decide) (by decide) hid
      (trial_suffers (P := fun e o => o = onlyAutomatic e) (fun _ => rfl) hcreate)
  have updated : History sampleConfig 4242421112 "c" 3 w' :=
    .updated created hrow clean_onlyAutomatic (haddress ▸ careful_onlyAutomatic) (by decide)
      (trial_suffers (P := fun e o => o = onlyAutomatic e) (fun _ => rfl) hupdate)
  exact ⟨w', updated, installed_eq_row updated⟩

/-- A create with automatic addresses and an update with addresses of its own, all calls working:
the interface carries both local addresses. -/
theorem update_keeps_former_address : ∃ w w' reply reply' row,
    Runs sampleConfig noneLate servedWorld sampleCreate [] (.ok reply) w ∧
    Runs sampleConfig noneLate w (sampleReplace (some (asnLinkLocal 7, asnLinkLocal 8))) []
      (.ok reply') w' ∧
    w'.row? 3 = some row ∧ row.localLlIp = asnLinkLocal 7 ∧
    installed (wgpName 3) w' ≠ {row.localLlIp} := by
  have run : ((trial (exec sampleConfig) refused (fun _ => .ok) sampleCreate.run servedWorld).bind
      fun x => (trial (exec sampleConfig) refused (fun _ => .ok)
        (sampleReplace (some (asnLinkLocal 7, asnLinkLocal 8))).run x.2.2).map fun y =>
          ([x.1, y.1], [x.2.1.isOk, y.2.1.isOk, y.2.2.ifaces.any fun i =>
            i.name = wgpName 3 ∧ asnLinkLocal 4242420000 ∈ i.addresses],
            (y.2.2.row? 3).map Peer.localLlIp)) =
      some ([[], []], [true, true, true], some (asnLinkLocal 7)) := by
    decide +kernel
  obtain ⟨⟨failed, r, w⟩, hcreate, hrest⟩ := Option.bind_eq_some_iff.mp run
  obtain ⟨⟨failed', r', w'⟩, hupdate, he⟩ := Option.map_eq_some_iff.mp hrest
  simp only [Prod.mk.injEq, List.cons.injEq, and_true, Option.map_eq_some_iff, List.any_eq_true,
    decide_eq_true_eq] at he
  obtain ⟨⟨rfl, rfl⟩, ⟨hr, hr', i, hi, hn, ha⟩, row, hrow, haddress⟩ := he
  cases r with
  | error e => cases hr
  | ok reply =>
    cases r' with
    | error e => cases hr'
    | ok reply' =>
      refine ⟨w, w', reply, reply', row, trial_suffers (fun _ => trivial) hcreate,
        trial_suffers (fun _ => trivial) hupdate, hrow, haddress, fun hall => ?_⟩
      have former : asnLinkLocal 4242420000 ∈ installed (wgpName 3) w' := ⟨i, hi, hn, ha⟩
      rw [hall, haddress, Set.mem_singleton_iff] at former
      exact absurd former (by decide)

end Sample

end Autopeer.LocalAddress
