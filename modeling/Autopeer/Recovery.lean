import Autopeer.InterfaceEffects

/-! Recovery at startup, as one run with nothing else at work: what each of its phases leaves, and
the state that a recovery that ends well leaves in all. -/
namespace Autopeer.Recovery
open Ipv6 PeerData BirdGeneration ProgramTree ProgramRuns
open ManagerWorld ManagerPrograms ManagerSystem ManagerEffects ManagerRules InterfaceEffects

variable {cfg : Config} {P : Call → Outcome → Prop} {w w' : World} {p : Peer} {peers : List Peer}

section Parts

lemma syncNftPortsFor_ends (h : Ends (exec cfg) P w (syncNftPortsFor peers).run (.ok ()) w') :
    w' = { w with nft := nftPorts peers } := by
  obtain ⟨v, hv, rfl⟩ := withLock_ends h
  obtain ⟨-, rfl⟩ := Prod.mk.inj (io_ends hv)
  simp

/-- A forced sync that ends well has switched to the rendering and reloaded on it. -/
lemma syncBirdConfigsFor_ends
    (h : Ends (exec cfg) P w (syncBirdConfigsFor peers true).run (.ok ()) w') :
    NamesValid peers ∧
      w' = { w with bird := ⟨some (rendering cfg.localAsn peers), rendering cfg.localAsn peers⟩ } := by
  obtain ⟨v, hv, rfl⟩ := withLock_ends h
  obtain ⟨hok, rfl⟩ := Prod.mk.inj (io_ends hv)
  cases hd : desiredGeneration cfg.localAsn peers with
  | error e => simp [Bird.sync, hd] at hok
  | ok d =>
    obtain ⟨hn, rfl⟩ := desiredGeneration_inv hd
    refine ⟨hn, ?_⟩
    simp only [Bird.sync, hd, List.erase_cons_head]
    split
    · rename_i hcur
      simp [← hcur]
    · rfl

lemma removeStopped_ends (h : Ends (exec cfg) P w (removeStopped p).run (.ok ()) w') :
    w' = w.dropIface p.ifaceName := by
  obtain ⟨v, hv, rfl⟩ := withLock_ends h
  obtain ⟨-, rfl⟩ := Prod.mk.inj (io_ends hv)
  simp [World.dropIface]

lemma removeUnlessDesired_ends {names : List String} {name : String}
    (h : Ends (exec cfg) P w (removeUnlessDesired names name).run (.ok ()) w') :
    w' = if name ∈ names then w else w.dropIface name := by
  unfold removeUnlessDesired at h
  split
  · rename_i hm
    rw [if_pos hm] at h
    exact (ends_done.mp h).2
  · rename_i hm
    rw [if_neg hm] at h
    exact (Prod.mk.inj (io_ends h)).2.symm

lemma removeDeleted_ends {e : PeerChange}
    (h : Ends (exec cfg) P w (removeDeleted e).run (.ok ()) w') :
    w' = if e.operation = "DELETE" ∧ w.row? e.peer.peerId = none ∧
      e.peer.ifaceName = wgpName e.peer.peerId then w.dropIface e.peer.ifaceName else w := by
  unfold removeDeleted at h
  by_cases hop : e.operation = "DELETE"
  · rw [if_pos hop] at h
    obtain ⟨row, u, hrow, h⟩ := guard_ends h
    obtain ⟨hr, rfl⟩ := Prod.mk.inj hrow
    cases hr
    simp only [hop, true_and, ← Option.isNone_iff_eq_none]
    split
    · rename_i hc
      rw [if_pos hc] at h
      exact (Prod.mk.inj (io_ends h)).2.symm
    · rename_i hc
      rw [if_neg hc] at h
      exact (ends_done.mp h).2
  · rw [if_neg hop] at h
    rw [if_neg fun hc => hop hc.1]
    exact (ends_done.mp h).2

lemma finishDelete_ends (h : Ends (exec cfg) P w (finishDelete p).run (.ok ()) w') :
    ∃ r, w.row? p.peerId = some r ∧
      w' = w.withTables ((w.removeRow p.peerId).enqueue "DELETE" r) := by
  obtain ⟨deleted, u, hd, h⟩ := guard_ends h
  obtain ⟨hv, rfl⟩ := Prod.mk.inj hd
  cases hv
  rcases deleteRow_cases w.toTables p.peerId with ⟨-, he⟩ | ⟨r, hr, he⟩
  · rw [he] at h
    exact absurd (ends_done.mp h).1 (by simp)
  · rw [he] at h
    exact ⟨r, hr, (ends_done.mp h).2⟩

/-- The row once it is activated. -/
def activated (r : Peer) : Peer := { r with status := .active }

lemma activate_ends (h : Ends (exec cfg) P w (activate p).run (.ok ()) w') :
    ∃ r, w.row? p.peerId = some r ∧
      w' = w.withTables ((w.replaceRow p.peerId activated).enqueue "UPDATE" (activated r)) := by
  obtain ⟨v, hv, rfl⟩ := withLock_ends h
  obtain ⟨stored, u, hs, h⟩ := guard_ends hv
  obtain ⟨hv, rfl⟩ := Prod.mk.inj hs
  cases hv
  rcases updateRow_cases w.toTables p.peerId
    (fun row => { row with status := PeerStatus.active.stored }) with ⟨-, he⟩ | ⟨r, hr, he⟩
  · rw [show World.toTables { w with locks := _ } = w.toTables from rfl, he] at h
    exact absurd (ends_done.mp h).1 (by simp)
  · rw [show World.toTables { w with locks := _ } = w.toTables from rfl, he] at h
    refine ⟨r, hr, ?_⟩
    rw [(ends_done.mp h).2]
    simp [World.withTables, activated]
    rfl

end Parts

section Phases

/-- Interfaces of these peers were set up; nothing else has changed. -/
structure Wired (desired : List Peer) (w w' : World) : Prop where
  tables : w'.toTables = w.toTables
  nft : w'.nft = w.nft
  bird : w'.bird = w.bird
  locks : w'.locks = w.locks
  others : ∀ i : Iface, (∀ p ∈ desired, i.name ≠ p.ifaceName) → (i ∈ w'.ifaces ↔ i ∈ w.ifaces)
  still : ∀ p ∈ desired, Configured p w → Configured p w'

/-- No two peers of the list share an interface name. -/
def OwnNames (desired : List Peer) : Prop :=
  ∀ p ∈ desired, ∀ q ∈ desired, p.ifaceName = q.ifaceName → p = q

theorem applyWireguard_all {desired : List Peer} (own : OwnNames desired)
    (h : Ends (exec cfg) P w (desired.forM applyWireguard).run (.ok ()) w') :
    Wired desired w w' ∧ ∀ p ∈ desired, Configured p w' := by
  obtain ⟨hw, hall⟩ := h.forM_rel (C := Wired desired)
    (G := fun p v => p ∈ desired → Configured p v)
    (fun v => ⟨rfl, rfl, rfl, rfl, fun _ _ => Iff.rfl, fun _ _ => id⟩)
    (fun u v x huv hvx => ⟨hvx.tables.trans huv.tables, hvx.nft.trans huv.nft,
      hvx.bird.trans huv.bird, hvx.locks.trans huv.locks,
      fun i hi => (hvx.others i hi).trans (huv.others i hi),
      fun p hp hc => hvx.still p hp (huv.still p hp hc)⟩)
    (fun p v v' hG hv hp => hv.still p hp (hG hp))
    fun p hp v v' _ hb => by
      obtain ⟨endpoint, hsome, rfl⟩ := applyWireguard_ends hb
      refine ⟨⟨wired_toTables, wired_nft, wired_bird, wired_locks, fun i hi => ?_, ?_⟩, fun _ => ?_⟩
      · exact wired_sameBut i (hi p hp)
      · rintro q hq ⟨address, hs, hc⟩
        by_cases hqp : q.ifaceName = p.ifaceName
        · obtain rfl := own q hq p hp hqp
          exact ⟨endpoint, hsome, wired_configuredAt⟩
        · exact ⟨address, hs, hc.same_but wired_sameBut hqp⟩
      · exact ⟨endpoint, hsome, wired_configuredAt⟩
  exact ⟨hw, fun p hp => hall p hp hp⟩

/-- Some interfaces were removed, but none whose name is kept; nothing else has changed. -/
structure Cleared (keep : String → Prop) (w w' : World) : Prop where
  tables : w'.toTables = w.toTables
  nft : w'.nft = w.nft
  bird : w'.bird = w.bird
  locks : w'.locks = w.locks
  fewer : ∀ i ∈ w'.ifaces, i ∈ w.ifaces
  kept : ∀ i ∈ w.ifaces, keep i.name → i ∈ w'.ifaces

variable {keep : String → Prop}

lemma Cleared.refl (w : World) : Cleared keep w w :=
  ⟨rfl, rfl, rfl, rfl, fun _ => id, fun _ h _ => h⟩

lemma Cleared.trans {u v x : World} (huv : Cleared keep u v) (hvx : Cleared keep v x) :
    Cleared keep u x :=
  ⟨hvx.tables.trans huv.tables, hvx.nft.trans huv.nft, hvx.bird.trans huv.bird,
    hvx.locks.trans huv.locks, fun i hi => huv.fewer i (hvx.fewer i hi),
    fun i hi hk => hvx.kept i (huv.kept i hi hk) hk⟩

lemma Cleared.drop {name : String} (h : ¬keep name) : Cleared keep w (w.dropIface name) :=
  ⟨rfl, rfl, rfl, rfl, fun _ hi => (mem_dropIface.mp hi).1,
    fun _ hi hk => mem_dropIface.mpr ⟨hi, fun he => h (he ▸ hk)⟩⟩

lemma Cleared.noIface {name : String} (h : Cleared keep w w') (hn : w.hasIface name = false) :
    w'.hasIface name = false := by
  rw [World.hasIface, List.any_eq_false] at hn ⊢
  exact fun i hi => hn i (h.fewer i hi)

lemma Cleared.configuredAt {endpoint : Option SocketAddr} (h : Cleared keep w w')
    (hk : keep p.ifaceName) (hc : ConfiguredAt endpoint p w) : ConfiguredAt endpoint p w' := by
  obtain ⟨i, hi, hn⟩ := hasIface_iff.mp hc.1
  exact ⟨hasIface_iff.mpr ⟨i, h.kept i hi (hn ▸ hk), hn⟩, fun j hj => hc.2 j (h.fewer j hj)⟩

lemma dropIface_noIface {name : String} : (w.dropIface name).hasIface name = false := by
  rw [World.hasIface, List.any_eq_false]
  intro i hi
  simpa using (mem_dropIface.mp hi).2

variable (keep) in
theorem removeStopped_all {stopped : List Peer} (hk : ∀ p ∈ stopped, ¬keep p.ifaceName)
    (h : Ends (exec cfg) P w (stopped.forM removeStopped).run (.ok ()) w') :
    Cleared keep w w' ∧ ∀ p ∈ stopped, w'.hasIface p.ifaceName = false :=
  h.forM_rel (G := fun p v => v.hasIface p.ifaceName = false) Cleared.refl
    (fun _ _ _ => Cleared.trans) (fun _ _ _ hG hv => hv.noIface hG) fun p hp v v' _ hb => by
      obtain rfl := removeStopped_ends hb
      exact ⟨Cleared.drop (hk p hp), dropIface_noIface⟩

theorem removeUnlessDesired_all {names managed : List String}
    (h : Ends (exec cfg) P w (managed.forM (removeUnlessDesired names)).run (.ok ()) w') :
    Cleared (· ∈ names) w w' ∧ ∀ n ∈ managed, n ∉ names → w'.hasIface n = false :=
  h.forM_rel (G := fun n v => n ∉ names → v.hasIface n = false) Cleared.refl
    (fun _ _ _ => Cleared.trans) (fun _ _ _ hG hv hn => hv.noIface (hG hn)) fun n _ v v' _ hb => by
      obtain rfl := removeUnlessDesired_ends hb
      split
      · rename_i hm
        exact ⟨Cleared.refl _, fun hn => absurd hm hn⟩
      · rename_i hm
        exact ⟨Cleared.drop hm, fun _ => dropIface_noIface⟩

/-- The event of a deleted row that left its own interface behind. -/
def Abandoned (w : World) (e : PeerChange) : Prop :=
  e.operation = "DELETE" ∧ w.row? e.peer.peerId = none ∧ e.peer.ifaceName = wgpName e.peer.peerId

variable (keep) in
theorem removeDeleted_all {changes : List PeerChange}
    (hk : ∀ e ∈ changes, Abandoned w e → ¬keep e.peer.ifaceName)
    (h : Ends (exec cfg) P w (changes.forM removeDeleted).run (.ok ()) w') :
    Cleared keep w w' ∧ ∀ e ∈ changes, Abandoned w e → w'.hasIface e.peer.ifaceName = false :=
  h.forM_rel (G := fun e v => Abandoned w e → v.hasIface e.peer.ifaceName = false) Cleared.refl
    (fun _ _ _ => Cleared.trans) (fun _ _ _ hG hv ha => hv.noIface (hG ha)) fun e he v v' hv hb => by
      obtain rfl := removeDeleted_ends hb
      rw [show v.row? = w.row? by rw [hv.tables]]
      split
      · rename_i ha
        exact ⟨Cleared.drop (hk e he ha), fun _ => dropIface_noIface⟩
      · rename_i ha
        exact ⟨Cleared.refl _, fun hc => absurd hc ha⟩

/-- Only the tables have changed: rows with these ids may be gone or active, the other rows are
as before, and the new events are about former rows. -/
structure Settled (gone active : List UInt32) (w w' : World) : Prop where
  ifaces : w'.ifaces = w.ifaces
  nft : w'.nft = w.nft
  bird : w'.bird = w.bird
  locks : w'.locks = w.locks
  origin : ∀ r' ∈ w'.peers, ∃ r ∈ w.peers, r' = r ∨ (r.peerId ∈ active ∧ r' = activated r)
  kept : ∀ r ∈ w.peers, r.peerId ∉ gone →
    r ∈ w'.peers ∨ (r.peerId ∈ active ∧ activated r ∈ w'.peers)
  events : ∀ e ∈ w'.events, e ∈ w.events ∨ ∃ r ∈ w.peers, r.peerId = e.peer.peerId
  ids : (w.peers.map Peer.peerId).Nodup → (w'.peers.map Peer.peerId).Nodup

variable {gone active : List UInt32}

lemma Settled.refl (w : World) : Settled gone active w w :=
  ⟨rfl, rfl, rfl, rfl, fun r hr => ⟨r, hr, .inl rfl⟩, fun _ hr _ => .inl hr, fun _ he => .inl he, id⟩

lemma Settled.trans {u v x : World} (huv : Settled gone active u v) (hvx : Settled gone active v x) :
    Settled gone active u x where
  ifaces := hvx.ifaces.trans huv.ifaces
  nft := hvx.nft.trans huv.nft
  bird := hvx.bird.trans huv.bird
  locks := hvx.locks.trans huv.locks
  origin := by
    intro r'' hr''
    obtain ⟨r', hr', h'⟩ := hvx.origin r'' hr''
    obtain ⟨r, hr, h⟩ := huv.origin r' hr'
    refine ⟨r, hr, ?_⟩
    rcases h' with rfl | ⟨ha', rfl⟩
    · exact h
    · rcases h with rfl | ⟨ha, rfl⟩
      · exact .inr ⟨ha', rfl⟩
      · exact .inr ⟨ha, rfl⟩
  kept := by
    intro r hr hg
    rcases huv.kept r hr hg with h | ⟨ha, h⟩
    · exact hvx.kept r h hg
    · rcases hvx.kept (activated r) h hg with h' | ⟨-, h'⟩ <;> exact .inr ⟨ha, h'⟩
  events := by
    intro e he
    rcases hvx.events e he with h | ⟨r', hr', hid⟩
    · exact huv.events e h
    · obtain ⟨r, hr, rfl | ⟨-, rfl⟩⟩ := huv.origin r' hr'
      · exact .inr ⟨_, hr, hid⟩
      · exact .inr ⟨r, hr, hid⟩
  ids := fun h => hvx.ids (huv.ids h)

variable (gone active) in
theorem finishDelete_all {deleting : List Peer} (hg : ∀ p ∈ deleting, p.peerId ∈ gone)
    (h : Ends (exec cfg) P w (deleting.forM finishDelete).run (.ok ()) w') :
    Settled gone active w w' ∧ ∀ p ∈ deleting, ∀ r ∈ w'.peers, r.peerId ≠ p.peerId := by
  refine h.forM_rel (G := fun p v => ∀ r ∈ v.peers, r.peerId ≠ p.peerId) Settled.refl
    (fun _ _ _ => Settled.trans) (fun p v v' hG hv r' hr' => ?_) fun p hp v v' _ hb => ?_
  · obtain ⟨r, hr, rfl | ⟨-, rfl⟩⟩ := hv.origin r' hr'
    · exact hG _ hr
    · exact hG r hr
  · obtain ⟨row, hrow, rfl⟩ := finishDelete_ends hb
    refine ⟨⟨rfl, rfl, rfl, rfl, fun r hr => ?_, fun r hr hn => ?_, fun e he => ?_,
      fun hn => hn.sublist (List.filter_sublist.map _)⟩, fun r hr => ?_⟩
    · exact ⟨r, (mem_removeRow.mp hr).1, .inl rfl⟩
    · exact .inl (mem_removeRow.mpr ⟨hr, fun he => hn (he ▸ hg p hp)⟩)
    · rcases List.mem_append.mp he with he | he
      · exact .inl he
      · rw [List.mem_singleton.mp he]
        exact .inr ⟨row, (row?_some hrow).1, rfl⟩
    · exact (mem_removeRow.mp hr).2

variable (gone) in
theorem activate_all {desired : List Peer} (ha : ∀ p ∈ desired, p.peerId ∈ active)
    (h : Ends (exec cfg) P w (desired.forM activate).run (.ok ()) w') :
    Settled gone active w w' ∧
      ∀ p ∈ desired, ∀ r ∈ w'.peers, r.peerId = p.peerId → r.status = .active := by
  refine h.forM_rel (G := fun p v => ∀ r ∈ v.peers, r.peerId = p.peerId → r.status = .active)
    Settled.refl (fun _ _ _ => Settled.trans) (fun p v v' hG hv r' hr' hid => ?_)
    fun p hp v v' _ hb => ?_
  · obtain ⟨r, hr, rfl | ⟨-, rfl⟩⟩ := hv.origin r' hr'
    · exact hG _ hr hid
    · rfl
  · obtain ⟨row, hrow, rfl⟩ := activate_ends hb
    refine ⟨⟨rfl, rfl, rfl, rfl, fun r' hr' => ?_, fun r hr _ => ?_, fun e he => ?_, fun hn => ?_⟩,
      fun r' hr' hid => ?_⟩
    · rcases mem_replaceRow.mp hr' with ⟨hr, -⟩ | ⟨r, hr, hid, rfl⟩
      · exact ⟨r', hr, .inl rfl⟩
      · exact ⟨r, hr, .inr ⟨hid ▸ ha p hp, rfl⟩⟩
    · by_cases hid : r.peerId = p.peerId
      · exact .inr ⟨hid ▸ ha p hp, mem_replaceRow.mpr (.inr ⟨r, hr, hid, rfl⟩)⟩
      · exact .inl (mem_replaceRow.mpr (.inl ⟨hr, hid⟩))
    · rcases List.mem_append.mp he with he | he
      · exact .inl he
      · rw [List.mem_singleton.mp he]
        exact .inr ⟨row, (row?_some hrow).1, rfl⟩
    · change ((v.peers.map _).map Peer.peerId).Nodup
      rw [List.map_map, List.map_congr_left fun r _ => ?_]
      · exact hn
      · simp only [Function.comp_apply]
        split <;> rfl
    · rcases mem_replaceRow.mp hr' with ⟨-, hne⟩ | ⟨r, -, -, rfl⟩
      · exact absurd hid hne
      · rfl

end Phases

section Whole

/-- What recovery makes of a row that it does not delete. -/
def recoveredRow (r : Peer) : Peer := if r.enabled then activated r else r

lemma activated_of_active {r : Peer} (h : r.status = .active) : activated r = r := by
  rw [activated, ← h]

/-- The rows after all deletions and activations, from what each of them leaves. -/
lemma Settled.rows (ids : (w.peers.map Peer.peerId).Nodup) (h : Settled gone active w w')
    (hgone : ∀ id, id ∈ gone ↔ ∃ p ∈ w.peers, p.status = .deleting ∧ p.peerId = id)
    (hactive : ∀ id, id ∈ active ↔ ∃ p ∈ w.peers, p.enabled ∧ p.peerId = id)
    (deleted : ∀ id ∈ gone, ∀ r ∈ w'.peers, r.peerId ≠ id)
    (set : ∀ id ∈ active, ∀ r ∈ w'.peers, r.peerId = id → r.status = .active) (r' : Peer) :
    r' ∈ w'.peers ↔ ∃ r ∈ w.peers, r.status ≠ .deleting ∧ r' = recoveredRow r := by
  have enabled_iff : ∀ r ∈ w.peers, r.peerId ∈ active ↔ r.enabled := by
    intro r hr
    rw [hactive]
    constructor
    · rintro ⟨q, hq, he, hid⟩
      rwa [← List.inj_on_of_nodup_map ids hq hr hid]
    · exact fun he => ⟨r, hr, he, rfl⟩
  constructor
  · intro hr'
    obtain ⟨r, hr, hor⟩ := h.origin r' hr'
    have hid : r'.peerId = r.peerId := by rcases hor with rfl | ⟨-, rfl⟩ <;> rfl
    refine ⟨r, hr, fun hd => ?_, ?_⟩
    · exact deleted r.peerId ((hgone _).mpr ⟨r, hr, hd, rfl⟩) r' hr' hid
    · rw [recoveredRow]
      split
      · rename_i he
        rcases hor with rfl | ⟨-, rfl⟩
        · exact (activated_of_active (set _ ((enabled_iff _ hr).mpr he) _ hr' rfl)).symm
        · rfl
      · rename_i he
        rcases hor with rfl | ⟨ha, rfl⟩
        · rfl
        · exact absurd ((enabled_iff r hr).mp ha) he
  · rintro ⟨r, hr, hd, rfl⟩
    have hg : r.peerId ∉ gone := by
      intro hm
      obtain ⟨q, hq, hqd, hid⟩ := (hgone _).mp hm
      exact hd (List.inj_on_of_nodup_map ids hq hr hid ▸ hqd)
    rw [recoveredRow]
    rcases h.kept r hr hg with hm | ⟨ha, hm⟩
    · split
      · rename_i he
        rwa [activated_of_active (set _ ((enabled_iff r hr).mpr he) r hm rfl)]
      · exact hm
    · rwa [if_pos ((enabled_iff r hr).mp ha)]

/-- The ids are unique and each interface name belongs to its id. -/
structure OwnRows (peers : List Peer) : Prop where
  ids : (peers.map Peer.peerId).Nodup
  names : ∀ p ∈ peers, p.ifaceName = wgpName p.peerId

lemma OwnRows.unique (h : OwnRows peers) {p q : Peer} (hp : p ∈ peers) (hq : q ∈ peers)
    (he : p.ifaceName = q.ifaceName) : p = q := by
  rw [h.names p hp, h.names q hq, wgpName_inj] at he
  exact List.inj_on_of_nodup_map h.ids hp hq he

/-- The last two loops of recovery. -/
def settleRows (peers : List Peer) : Manager Unit := do
  (peers.filter fun peer => peer.status = .deleting).forM finishDelete
  (peers.filter Peer.enabled).forM activate

/-- Recovery from the first removal of an interface on. -/
def clearInterfaces (peers : List Peer) : Manager Unit := do
  (peers.filter fun peer => !peer.enabled).forM removeStopped
  let managed ← io .listManagedInterfaces
  managed.forM (removeUnlessDesired ((peers.filter Peer.enabled).map Peer.ifaceName))
  let changes ← io .listPeerChanges
  changes.forM removeDeleted
  settleRows peers

/-- Recovery after the interfaces of the enabled peers are set up. -/
def publish (peers : List Peer) : Manager Unit := do
  syncNftPortsFor peers
  syncBirdConfigsFor peers true
  clearInterfaces peers

lemma recover_eq : recover = (do
    let peers ← io .listPeers
    (peers.filter Peer.enabled).forM applyWireguard
    publish peers) := rfl

theorem settleRows_spec (own : OwnRows w.peers) (hm : ∀ p, p ∈ peers ↔ p ∈ w.peers)
    (h : Ends (exec cfg) P w (settleRows peers).run (.ok ()) w') :
    (∃ gone active, Settled gone active w w') ∧
      ∀ r', r' ∈ w'.peers ↔ ∃ r ∈ w.peers, r.status ≠ .deleting ∧ r' = recoveredRow r := by
  obtain ⟨_, v, hfinish, hactive⟩ := Ends.bind_ok h
  obtain ⟨settle₁, deleted⟩ := finishDelete_all
    ((peers.filter (·.status = .deleting)).map Peer.peerId)
    ((peers.filter Peer.enabled).map Peer.peerId) (fun p hp => List.mem_map_of_mem hp) hfinish
  obtain ⟨settle₂, set⟩ := activate_all
    ((peers.filter (·.status = .deleting)).map Peer.peerId) (fun p hp => List.mem_map_of_mem hp) hactive
  have settle := settle₁.trans settle₂
  refine ⟨⟨_, _, settle⟩, settle.rows own.ids (by simp [hm, and_assoc]) (by simp [hm, and_assoc]) ?_ ?_⟩
  · intro id hid r' hr'
    obtain ⟨p, hp, rfl⟩ := List.mem_map.mp hid
    obtain ⟨r, hr, rfl | ⟨-, rfl⟩⟩ := settle₂.origin r' hr'
    · exact deleted p hp _ hr
    · exact deleted p hp r hr
  · intro id hid r hr hrid
    obtain ⟨p, hp, rfl⟩ := List.mem_map.mp hid
    exact set p hp r hr hrid

/-- What the removal of interfaces and the last writes to the table leave. -/
structure Finished (w w' : World) : Prop where
  rows : ∀ r', r' ∈ w'.peers ↔ ∃ r ∈ w.peers, r.status ≠ .deleting ∧ r' = recoveredRow r
  ids : (w'.peers.map Peer.peerId).Nodup
  events : ∀ e ∈ w'.events, e ∈ w.events ∨ ∃ r ∈ w.peers, r.peerId = e.peer.peerId
  nft : w'.nft = w.nft
  bird : w'.bird = w.bird
  locks : w'.locks = w.locks
  fewer : ∀ i ∈ w'.ifaces, i ∈ w.ifaces
  kept : ∀ p ∈ w.peers, p.enabled → ∀ endpoint, ConfiguredAt endpoint p w →
    ConfiguredAt endpoint p w'
  stopped : ∀ p ∈ w.peers, p.enabled = false → w'.hasIface p.ifaceName = false
  managed : ∀ i ∈ w'.ifaces, i.managed → ∃ p ∈ w.peers, p.enabled ∧ i.name = p.ifaceName
  abandoned : ∀ e ∈ w.events, Abandoned w e → w'.hasIface e.peer.ifaceName = false

theorem clearInterfaces_spec (own : OwnRows w.peers) (hm : ∀ p, p ∈ peers ↔ p ∈ w.peers)
    (h : Ends (exec cfg) P w (clearInterfaces peers).run (.ok ()) w') : Finished w w' := by
  obtain ⟨_, w₁, hstop, rest₁⟩ := Ends.bind_ok h
  obtain ⟨managed, _, hlist, rest₂⟩ := guard_ends rest₁
  obtain ⟨hmanaged, rfl⟩ := Prod.mk.inj hlist
  obtain ⟨_, w₂, hdrop, rest₃⟩ := Ends.bind_ok rest₂
  obtain ⟨changes, _, hevents, rest₄⟩ := guard_ends rest₃
  obtain ⟨hchanges, rfl⟩ := Prod.mk.inj hevents
  obtain ⟨_, w₃, hdeleted, rest₅⟩ := Ends.bind_ok rest₄
  cases hmanaged
  cases hchanges
  -- The names of the interfaces that must stay; the three loops remove no other.
  have names_iff : ∀ n, n ∈ (peers.filter Peer.enabled).map Peer.ifaceName ↔
      ∃ p ∈ w.peers, p.enabled ∧ p.ifaceName = n := by
    simp [hm, and_assoc]
  obtain ⟨clear₁, stopped⟩ := removeStopped_all
    (· ∈ (peers.filter Peer.enabled).map Peer.ifaceName) (fun p hp hn => by
      obtain ⟨q, hq, he, hname⟩ := (names_iff _).mp hn
      obtain ⟨hp, hne⟩ : p ∈ w.peers ∧ _ := by simpa [hm] using hp
      rw [own.unique hq hp hname, hne] at he
      cases he) hstop
  obtain ⟨clear₂, dropped⟩ := removeUnlessDesired_all hdrop
  have tables₂ : w₂.toTables = w.toTables := (clear₁.trans clear₂).tables
  obtain ⟨clear₃, abandoned⟩ := removeDeleted_all
    (· ∈ (peers.filter Peer.enabled).map Peer.ifaceName) (fun e _ ha hn => by
      obtain ⟨q, hq, -, hname⟩ := (names_iff _).mp hn
      rw [own.names q hq, ha.2.2, wgpName_inj] at hname
      exact row?_none ha.2.1 q (tables₂ ▸ hq) hname) hdeleted
  have clear := (clear₁.trans clear₂).trans clear₃
  have same : w₃.peers = w.peers := by rw [clear.tables]
  obtain ⟨⟨gone, active, settle⟩, rows⟩ :=
    settleRows_spec (same ▸ own) (fun p => by rw [same, hm]) rest₅
  rw [same] at rows
  have noIface : ∀ n, w₃.hasIface n = false → w'.hasIface n = false := fun n hn => by
    rwa [World.hasIface, settle.ifaces]
  exact
    { rows := rows
      ids := settle.ids (same ▸ own.ids)
      events := fun e he => by
        have := settle.events e he
        rwa [show w₃.toTables = w.toTables from clear.tables] at this
      nft := settle.nft.trans clear.nft
      bird := settle.bird.trans clear.bird
      locks := settle.locks.trans clear.locks
      fewer := fun i hi => clear.fewer i (settle.ifaces ▸ hi)
      kept := fun p hp he endpoint hc =>
        (clear.configuredAt ((names_iff _).mpr ⟨p, hp, he, rfl⟩) hc).ifaces_eq settle.ifaces
      stopped := fun p hp he => noIface _
        (clear₃.noIface (clear₂.noIface (stopped p (by simp [hm, hp, he]))))
      managed := fun i hi hmi => by
        rw [settle.ifaces] at hi
        by_contra hn
        have hname : i.name ∉ (peers.filter Peer.enabled).map Peer.ifaceName := by
          rw [names_iff]
          rintro ⟨p, hp, he, hpn⟩
          exact hn ⟨p, hp, he, hpn.symm⟩
        have hi₂ := clear₃.fewer i hi
        have hgone := dropped i.name
          (List.mem_map_of_mem (List.mem_filter.mpr ⟨clear₂.fewer i hi₂, hmi⟩)) hname
        rw [World.hasIface, List.any_eq_false] at hgone
        exact hgone i hi₂ (by simp)
      abandoned := fun e he ha => noIface _ (abandoned e (by simpa [tables₂] using he)
        (by rwa [Abandoned, tables₂])) }

/-- The state that recovery leaves when it ends well. -/
structure Recovered (cfg : Config) (w w' : World) : Prop where
  rows : ∀ r', r' ∈ w'.peers ↔ ∃ r ∈ w.peers, r.status ≠ .deleting ∧ r' = recoveredRow r
  ids : (w'.peers.map Peer.peerId).Nodup
  events : ∀ e ∈ w'.events, e ∈ w.events ∨ ∃ r ∈ w.peers, r.peerId = e.peer.peerId
  nft : w'.nft = nftPorts (w.listPeers cfg)
  bird : w'.bird = ⟨some (rendering cfg.localAsn (w.listPeers cfg)),
    rendering cfg.localAsn (w.listPeers cfg)⟩
  locks : w'.locks = w.locks
  configured : ∀ p ∈ w.peers, p.enabled → Configured p w'
  stopped : ∀ p ∈ w.peers, p.enabled = false → w'.hasIface p.ifaceName = false
  managed : ∀ i ∈ w'.ifaces, i.managed → ∃ p ∈ w.peers, p.enabled ∧ i.name = p.ifaceName
  others : ∀ i ∈ w'.ifaces, (∀ p ∈ w.peers, p.enabled → i.name ≠ p.ifaceName) → i ∈ w.ifaces
  abandoned : ∀ e ∈ w.events, Abandoned w e → w'.hasIface e.peer.ifaceName = false

lemma publish_spec (own : OwnRows w.peers) (hm : ∀ p, p ∈ peers ↔ p ∈ w.peers)
    (h : Ends (exec cfg) P w (publish peers).run (.ok ()) w') :
    Finished { w with nft := nftPorts peers, bird := ⟨some (rendering cfg.localAsn peers),
      rendering cfg.localAsn peers⟩ } w' := by
  obtain ⟨_, w₁, hnft, rest⟩ := Ends.bind_ok h
  obtain ⟨_, w₂, hbird, rest⟩ := Ends.bind_ok rest
  obtain rfl := syncNftPortsFor_ends hnft
  obtain ⟨-, rfl⟩ := syncBirdConfigsFor_ends hbird
  exact clearInterfaces_spec own hm rest

theorem recover_spec (own : OwnRows w.peers)
    (h : Ends (exec cfg) P w recover.run (.ok ()) w') : Recovered cfg w w' := by
  rw [recover_eq] at h
  obtain ⟨peers, _, h₀, rest⟩ := guard_ends h
  obtain ⟨hpeers, rfl⟩ := Prod.mk.inj h₀
  obtain rfl : w.listPeers cfg = peers := Except.ok.inj hpeers
  obtain ⟨_, w₁, hwire, rest⟩ := Ends.bind_ok rest
  have mem_desired : ∀ p, p ∈ (w.listPeers cfg).filter Peer.enabled ↔ p ∈ w.peers ∧ p.enabled := by
    simp
  obtain ⟨wire, wiredUp⟩ := applyWireguard_all (fun p hp q hq =>
    own.unique ((mem_desired p).mp hp).1 ((mem_desired q).mp hq).1) hwire
  have same : w₁.peers = w.peers := by rw [wire.tables]
  have fin := publish_spec (same ▸ own) (fun p => by rw [same, mem_listPeers]) rest
  simp only [wire.tables] at fin
  exact
    { rows := fin.rows
      ids := fin.ids
      events := fin.events
      nft := fin.nft
      bird := fin.bird
      locks := fin.locks.trans wire.locks
      configured := fun p hp he => by
        obtain ⟨endpoint, hsome, hc⟩ := wiredUp p ((mem_desired p).mpr ⟨hp, he⟩)
        exact ⟨endpoint, hsome, fin.kept p hp he endpoint hc⟩
      stopped := fin.stopped
      managed := fin.managed
      others := fun i hi hn => (wire.others i fun p hp =>
        hn p ((mem_desired p).mp hp).1 ((mem_desired p).mp hp).2).mp (fin.fewer i hi)
      abandoned := fin.abandoned }

lemma activated_enabled {r : Peer} : (activated r).enabled = true := rfl

lemma Recovered.enabled_iff (h : Recovered cfg w w') {r' : Peer} (hr : r' ∈ w'.peers) :
    r'.enabled = true ↔ r'.status = .active := by
  obtain ⟨r, -, -, rfl⟩ := (h.rows r').mp hr
  rw [recoveredRow]
  split
  · simp [activated, Peer.enabled]
  · rename_i he
    constructor
    · exact fun h' => absurd h' he
    · intro ha
      simp [Peer.enabled, ha] at he

/-- The active rows are the enabled rows of before. -/
lemma Recovered.active_iff (h : Recovered cfg w w') {r' : Peer} :
    (r' ∈ w'.peers ∧ r'.status = .active) ↔ ∃ r ∈ w.peers, r.enabled ∧ r' = activated r := by
  constructor
  · rintro ⟨hr', ha⟩
    obtain ⟨r, hr, -, rfl⟩ := (h.rows r').mp hr'
    have he := (h.enabled_iff hr').mpr ha
    rw [recoveredRow] at he ⊢
    split at he
    · rename_i hen
      exact ⟨r, hr, hen, by rw [if_pos hen]⟩
    · rename_i hen
      exact absurd he hen
  · rintro ⟨r, hr, he, rfl⟩
    refine ⟨(h.rows _).mpr ⟨r, hr, ?_, by rw [recoveredRow, if_pos he]⟩, rfl⟩
    rintro hd
    simp [Peer.enabled, hd] at he

lemma Recovered.names (h : Recovered cfg w w') (own : OwnRows w.peers) : OwnRows w'.peers := by
  refine ⟨h.ids, fun r' hr' => ?_⟩
  obtain ⟨r, hr, -, rfl⟩ := (h.rows r').mp hr'
  rw [recoveredRow]
  split <;> exact own.names r hr

lemma OwnRows.distinct (own : OwnRows peers) : NamesDistinct (peers.filter Peer.enabled) :=
  namesDistinct_of_ids (fun p hp _ => own.names p hp) (List.pairwise_map.mp own.ids)

lemma OwnRows.perm {qs : List Peer} (own : OwnRows peers) (h : qs.Perm peers) : OwnRows qs :=
  ⟨(h.map _).nodup_iff.mpr own.ids, fun p hp => own.names p (h.mem_iff.mp hp)⟩

/-- The files that recovery left are the rendering of the rows it left active. -/
lemma Recovered.rendering_eq (h : Recovered cfg w w') (own : OwnRows w.peers) :
    rendering cfg.localAsn (w.listPeers cfg) =
      rendering cfg.localAsn (w'.peers.filter (·.status = .active)) := by
  have own' : OwnRows (w'.peers.filter (·.status = .active)) :=
    ⟨(h.names own).ids.sublist (List.filter_sublist.map _),
      fun p hp => (h.names own).names p (List.mem_filter.mp hp).1⟩
  refine rendering_congr (own.perm (List.perm_insertionSort _ _)).distinct own'.distinct
    fun name content => ?_
  constructor
  · rintro ⟨r, hr, he, hname, hcontent⟩
    obtain ⟨hr', ha⟩ := h.active_iff.mpr ⟨r, mem_listPeers.mp hr, he, rfl⟩
    exact ⟨activated r, List.mem_filter.mpr ⟨hr', by simpa using ha⟩, activated_enabled, hname,
      hcontent⟩
  · rintro ⟨r', hr', -, hname, hcontent⟩
    obtain ⟨hr', ha⟩ := List.mem_filter.mp hr'
    obtain ⟨r, hr, he, rfl⟩ := h.active_iff.mp ⟨hr', by simpa using ha⟩
    exact ⟨r, mem_listPeers.mpr hr, he, hname, hcontent⟩

end Whole

section Scripted

/-- The world and the DNS answers still to come. -/
abbrev Scripted := World × List (Except PeerError SocketAddr)

/-- Every call works, but the answers of the DNS are given one by one. -/
def scripted (cfg : Config) : (e : Call) → Scripted → Option (Answer e × Scripted)
  | .resolveEndpoint _, (_, []) => none
  | .resolveEndpoint _, (w, answer :: answers) => some (answer, (w, answers))
  | .lock l, v => (exec cfg .ok (.lock l) v.1).map fun x => (x.1, (x.2, v.2))
  | .unlock l, v => some ((), ({ v.1 with locks := v.1.locks.erase l }, v.2))
  | .io c, v => some ((effect cfg c v.1).1, ((effect cfg c v.1).2, v.2))

lemma scripted_sound (e : Call) (v : Scripted) (r : Answer e) (v' : Scripted)
    (h : scripted cfg e v = some (r, v')) :
    ∃ o, (fun _ _ => True : Call → Outcome → Prop) e o ∧ exec cfg o e v.1 = some (r, v'.1) := by
  obtain ⟨w, answers⟩ := v
  cases e with
  | resolveEndpoint text =>
    cases answers with
    | nil => simp [scripted] at h
    | cons a as =>
      simp only [scripted, Option.some.injEq, Prod.mk.injEq] at h
      obtain ⟨rfl, rfl⟩ := h
      cases a with
      | ok address => exact ⟨.resolved address, trivial, rfl⟩
      | error error => exact ⟨.fail error, trivial, rfl⟩
  | lock l =>
    obtain ⟨x, hx, he⟩ := Option.map_eq_some_iff.mp h
    cases he
    exact ⟨.ok, trivial, hx⟩
  | unlock l =>
    cases h
    exact ⟨.ok, trivial, rfl⟩
  | io c =>
    cases h
    exact ⟨.ok, trivial, rfl⟩

end Scripted

/-- Recovery that ends well, from any external state and any outcomes of its calls. -/
theorem recover_consistent (own : OwnRows w.peers)
    (h : Ends (exec cfg) (fun _ _ => True) w recover.run (.ok ()) w') :
    (∀ r ∈ w'.peers, r.status ≠ .deleting) ∧
    (∀ r ∈ w.peers, r.status = .disabled → r ∈ w'.peers) ∧
    (∀ r' ∈ w'.peers, (r' ∈ w.peers ∧ r'.status = .disabled) ∨
      ∃ r ∈ w.peers, r.enabled ∧ r' = { r with status := .active }) ∧
    (∀ r ∈ w.peers, r.enabled → { r with status := .active } ∈ w'.peers) ∧
    (∀ port, port ∈ w'.nft ↔ ∃ r ∈ w'.peers, r.status = .active ∧ r.listenPort = port) ∧
    (w'.bird.current = some (rendering cfg.localAsn (w'.peers.filter (·.status = .active))) ∧
      w'.bird.loaded = rendering cfg.localAsn (w'.peers.filter (·.status = .active))) ∧
    (∀ r ∈ w'.peers, r.status = .active → w'.hasIface r.ifaceName = true) ∧
    (∀ r ∈ w.peers, r.status = .deleting ∨ r.status = .disabled →
      w'.hasIface r.ifaceName = false) ∧
    (∀ i ∈ w'.ifaces, i.managed → ∃ r ∈ w'.peers, r.status = .active ∧ i.name = r.ifaceName) ∧
    ∀ e ∈ w'.events, e.operation = "DELETE" → (∀ r ∈ w'.peers, r.peerId ≠ e.peer.peerId) →
      e.peer.ifaceName = wgpName e.peer.peerId → w'.hasIface e.peer.ifaceName = false := by
  have hr := recover_spec own h
  refine ⟨fun r' hr' => ?_, fun r hm hd => ?_, fun r' hr' => ?_, fun r hm he => ?_, fun port => ?_,
    ?_, fun r' hr' ha => ?_, fun r hm hs => ?_, fun i hi hm => ?_, fun e he hop hrow hname => ?_⟩
  · obtain ⟨r, -, hd, rfl⟩ := (hr.rows r').mp hr'
    rw [recoveredRow]
    split
    · simp [activated]
    · exact hd
  · refine (hr.rows r).mpr ⟨r, hm, by simp [hd], ?_⟩
    simp [recoveredRow, Peer.enabled, hd]
  · obtain ⟨r, hm, hd, rfl⟩ := (hr.rows r').mp hr'
    rw [recoveredRow]
    split
    · rename_i he
      exact .inr ⟨r, hm, he, rfl⟩
    · rename_i he
      exact .inl ⟨hm, by simpa [Peer.enabled, hd] using he⟩
  · exact (hr.active_iff.mpr ⟨r, hm, he, rfl⟩).1
  · rw [hr.nft, mem_nftPorts]
    constructor
    · rintro ⟨r, hm, he, rfl⟩
      obtain ⟨hr', ha⟩ := hr.active_iff.mpr ⟨r, mem_listPeers.mp hm, he, rfl⟩
      exact ⟨activated r, hr', ha, rfl⟩
    · rintro ⟨r', hr', ha, rfl⟩
      obtain ⟨r, hm, he, rfl⟩ := hr.active_iff.mp ⟨hr', ha⟩
      exact ⟨r, mem_listPeers.mpr hm, he, rfl⟩
  · rw [hr.bird, hr.rendering_eq own]
    exact ⟨rfl, rfl⟩
  · obtain ⟨r, hm, he, rfl⟩ := hr.active_iff.mp ⟨hr', ha⟩
    obtain ⟨_, -, hc, -⟩ := hr.configured r hm he
    exact hc
  · refine hr.stopped r hm ?_
    rcases hs with hs | hs <;> simp [Peer.enabled, hs]
  · obtain ⟨r, hp, he, hn⟩ := hr.managed i hi hm
    obtain ⟨hr', ha⟩ := hr.active_iff.mpr ⟨r, hp, he, rfl⟩
    exact ⟨activated r, hr', ha, hn⟩
  · -- The id had a row before: then that row was Deleting, or it would have survived.
    by_cases hid : ∃ r ∈ w.peers, r.peerId = e.peer.peerId
    · obtain ⟨r, hm, hid⟩ := hid
      have hd : r.status = .deleting := by
        by_contra hd
        refine hrow _ ((hr.rows _).mpr ⟨r, hm, hd, rfl⟩) ?_
        rw [recoveredRow]
        split <;> exact hid
      rw [hname, ← hid, ← own.names r hm]
      exact hr.stopped r hm (by simp [Peer.enabled, hd])
    · push Not at hid
      rcases hr.events e he with hm | ⟨r, hm, h'⟩
      · refine hr.abandoned e hm ⟨hop, ?_, hname⟩
        exact List.find?_eq_none.mpr fun r hm => by simpa using hid r hm
      · exact absurd h' (hid r hm)

section Sample

def sampleRow (peerId : UInt32) (peerName : String) (status : PeerStatus) : Peer :=
  { peerId, peerName, ifaceName := wgpName peerId, asn := 4242421111, pubkey := ⟨"key"⟩,
    endpoint := none, localLlIp := asnLinkLocal 4242420000, remoteLlIp := asnLinkLocal 4242421111,
    status, listenPort := 20000 + peerId.toUInt16, mtu := 1420 }

/-- Rows in three states, a managed and a foreign interface, and the event of a deleted row. -/
def sampleWorld : World :=
  { peers := [sampleRow 1 "a" .provisioning, sampleRow 2 "b" .deleting, sampleRow 3 "c" .disabled]
    born := []
    peerSeq := 10
    events := [⟨1, "DELETE", sampleRow 7 "d" .active⟩]
    nextEvent := 2
    locks := []
    ifaces := [newLink "wgp2", { newLink "wgp9" with ifAlias := some "dn42-autopeer:9" },
      newLink "wgp7", newLink "eth0"]
    nft := [1]
    bird := ⟨some ∅, ∅⟩ }

theorem recover_consistent_sample : ∃ w', Ends (exec sampleConfig) (fun _ _ => True) sampleWorld
      recover.run (.ok ()) w' ∧ w'.ifaces.map Iface.name = ["eth0", "wgp1"] ∧
    (∀ r ∈ w'.peers, r.status ≠ .deleting) ∧
    ∀ port, port ∈ w'.nft ↔ ∃ r ∈ w'.peers, r.status = .active ∧ r.listenPort = port := by
  have ends : ((runWith (scripted sampleConfig) recover.run (sampleWorld, [])).map fun x =>
      (x.1.isOk, x.2.1.ifaces.map Iface.name)) = some (true, ["eth0", "wgp1"]) := by
    decide +kernel
  obtain ⟨⟨r, w', rest⟩, hrun, hsame⟩ := Option.map_eq_some_iff.mp ends
  obtain ⟨hok, hnames⟩ := Prod.mk.inj hsame
  cases r with
  | error e => cases hok
  | ok u =>
    have h := runWith_ends Prod.fst scripted_sound hrun
    have all := recover_consistent (w := sampleWorld) ⟨by decide, by decide⟩ h
    exact ⟨w', h, hnames, all.1, all.2.2.2.2.1⟩

end Sample

end Autopeer.Recovery
