import Autopeer.Recovery

/-! Recovery when some endpoints do not resolve and every other call works: it stops at the first
such peer, so the peers after it are as well off as they were before. -/
namespace Autopeer.RecoveryIsolation
open Ipv6 PeerData Template BirdGeneration ProgramTree ProgramRuns
open ManagerWorld ManagerPrograms ManagerSystem ManagerEffects InterfaceEffects Recovery

variable {cfg : Config} {dns : Peer → Except PeerError SocketAddr} {w w' : World} {p : Peer}
  {answers : List (Except PeerError SocketAddr)}

/-- The endpoint of `p` is a name that does not resolve; `dns` is the answer for each peer. -/
def fails (dns : Peer → Except PeerError SocketAddr) (p : Peer) : Bool :=
  p.endpoint.isSome && !(dns p).isOk

def address (dns : Peer → Except PeerError SocketAddr) (p : Peer) : Option SocketAddr :=
  if p.endpoint.isSome then (dns p).toOption else none

/-- The answers in the order in which recovery asks for them. -/
def answersFor (dns : Peer → Except PeerError SocketAddr) (peers : List Peer) :
    List (Except PeerError SocketAddr) := (peers.filter (·.endpoint.isSome)).map dns

def desired (cfg : Config) (w : World) : List Peer := (w.listPeers cfg).filter Peer.enabled

/-- The full recovered state of one peer. -/
structure BroughtUp (cfg : Config) (dns : Peer → Except PeerError SocketAddr) (p : Peer)
    (w : World) : Prop where
  interface : ConfiguredAt (address dns p) p w
  port : p.listenPort ∈ w.nft
  file : w.bird.content[confName p]? = some (renderPeerConfig cfg.localAsn p)
  row : activated p ∈ w.peers

/-- Recovery brings up every enabled peer whose endpoint does not fail to resolve. -/
def OthersRecovered (cfg : Config) (dns : Peer → Except PeerError SocketAddr) (w : World) : Prop :=
  ∃ r w' rest, runWith (scripted cfg) recover.run (w, answersFor dns (desired cfg w)) =
      some (r, (w', rest)) ∧
    ∀ p ∈ w.peers, p.enabled → fails dns p = false → BroughtUp cfg dns p w'

/-- The peer needs no more of recovery than the part before the first failure. -/
structure UpBefore (cfg : Config) (dns : Peer → Except PeerError SocketAddr) (w : World)
    (p : Peer) : Prop where
  interface : p ∈ (desired cfg w).takeWhile (fun q => !fails dns q) ∨
    ConfiguredAt (address dns p) p w
  port : p.listenPort ∈ w.nft
  file : w.bird.content[confName p]? = some (renderPeerConfig cfg.localAsn p)
  row : p.status = .active

section Works

variable (cfg answers) in
lemma io_works {c : Io} {v : c.Value} (h : effect cfg c w = (.ok v, w')) :
    runWith (scripted cfg) (io c).run (w, answers) = some (.ok v, (w', answers)) := by
  change (scripted cfg (.io c) (w, answers)).bind _ = _
  simp only [scripted, h]
  rfl

lemma withLock_works {α : Type} {l : Lock} {body : Manager α} {v : World}
    {r : Except PeerError α} (hl : w.locks = [])
    (h : runWith (scripted cfg) body.run ({ w with locks := [l] }, answers) = some (r, (v, answers)))
    (hv : v.locks = [l]) :
    runWith (scripted cfg) (withLock l body).run (w, answers) =
      some (r, ({ v with locks := [] }, answers)) := by
  have lock : scripted cfg (.lock l) (w, answers) =
      some ((), ({ w with locks := [l] }, answers)) := by
    simp [scripted, exec, hl]
  change (scripted cfg (.lock l) (w, answers)).bind _ = _
  rw [lock, Option.bind_some, runWith_bind, h]
  change some (r, ({ v with locks := v.locks.erase l }, answers)) = _
  rw [hv]
  simp

lemma row?_of_exists {t : Tables} {peerId : UInt32} (h : ∃ r ∈ t.peers, r.peerId = peerId) :
    ∃ r, t.row? peerId = some r := by
  obtain ⟨r, hr, hid⟩ := h
  refine Option.isSome_iff_exists.mp ?_
  rw [Tables.row?, List.find?_isSome]
  exact ⟨r, hr, by simpa using hid⟩

/-- One peer whose endpoint resolves, or that has none. -/
theorem applyWireguard_works (ps : List Peer) (hp : fails dns p = false) :
    runWith (scripted cfg) (applyWireguard p).run (w, answersFor dns (p :: ps)) =
      some (.ok (), (wired p (address dns p) w, answersFor dns ps)) := by
  have resolve : runWith (scripted cfg) (resolveOptional p.endpoint).run
      (linked p w, answersFor dns (p :: ps)) =
        some (.ok (address dns p), (linked p w, answersFor dns ps)) := by
    cases he : p.endpoint with
    | none =>
      simp [answersFor, address, he, resolveOptional]
    | some text =>
      cases hd : dns p with
      | error e => simp [fails, he, hd, Except.isOk, Except.toBool] at hp
      | ok a =>
        simp only [answersFor, he, Option.isSome_some, List.filter_cons_of_pos, List.map_cons, hd,
          address, ↓reduceIte, Except.toOption]
        rfl
  have link := io_works cfg (answersFor dns (p :: ps))
    (rfl : effect cfg (.ensureWgInterface p.ifaceName p.peerId p.mtu) w = (.ok (), linked p w))
  have peer := io_works cfg (answersFor dns ps)
    (c := .configurePeer p.ifaceName p.listenPort p.pubkey (address dns p)) (w := linked p w) (by rw [effect, if_pos linked_hasIface])
  have local' := io_works cfg (answersFor dns ps)
    (c := .configureLocalAddress p.ifaceName p.localLlIp) (w := (linked p w).setIface p.ifaceName fun i =>
      { i with pubkey := some p.pubkey, endpoint := address dns p, listenPort := some p.listenPort })
    (by rw [effect, if_pos (by rw [setIface_hasIface (by simp)]; exact linked_hasIface)])
  exact (runWith_bind_ok link).trans ((runWith_bind_ok resolve).trans ((runWith_bind_ok peer).trans
    local'))

variable (cfg w) in
/-- The first peer whose endpoint does not resolve. -/
theorem applyWireguard_fails (ps : List Peer) (hp : fails dns p = true) :
    ∃ e, runWith (scripted cfg) (applyWireguard p).run (w, answersFor dns (p :: ps)) =
      some (.error e, (linked p w, answersFor dns ps)) := by
  have link := io_works cfg (answersFor dns (p :: ps))
    (rfl : effect cfg (.ensureWgInterface p.ifaceName p.peerId p.mtu) w = (.ok (), linked p w))
  cases he : p.endpoint with
  | none => simp [fails, he] at hp
  | some text =>
    cases hd : dns p with
    | ok a => simp [fails, he, hd, Except.isOk, Except.toBool] at hp
    | error e =>
      refine ⟨e, (runWith_bind_ok link).trans (runWith_bind_error ?_)⟩
      simp only [answersFor, he, Option.isSome_some, List.filter_cons_of_pos, List.map_cons, hd]
      rfl

variable (cfg w) in
/-- The peers before the first failure are all set up. -/
theorem wireguard_loop (ps rest : List Peer) (own : OwnNames ps)
    (hok : ∀ p ∈ ps, fails dns p = false) :
    ∃ w', runWith (scripted cfg) (ps.forM applyWireguard).run (w, answersFor dns (ps ++ rest)) =
        some (.ok (), (w', answersFor dns rest)) ∧
      Wired ps w w' ∧ ∀ p ∈ ps, ConfiguredAt (address dns p) p w' := by
  suffices h : ∃ w', runWith (scripted cfg) (ps.forM applyWireguard).run
      (w, answersFor dns (ps ++ rest)) = some (.ok (), (w', answersFor dns rest)) ∧
      ∀ p ∈ ps, ConfiguredAt (address dns p) p w' by
    obtain ⟨w', hrun, hc⟩ := h
    exact ⟨w', hrun, (applyWireguard_all own
      (runWith_ends Prod.fst scripted_sound hrun)).1, hc⟩
  induction ps generalizing w with
  | nil => exact ⟨w, rfl, by simp⟩
  | cons p ps ih =>
    have own' : OwnNames ps := fun a ha b hb => own a (by simp [ha]) b (by simp [hb])
    obtain ⟨w', hrun, hc⟩ := ih (w := wired p (address dns p) w) own' fun q hq => hok q (by simp [hq])
    refine ⟨w', ?_, fun q hq => ?_⟩
    · exact (runWith_bind_ok (x := applyWireguard p) (f := fun _ => ps.forM applyWireguard)
        (applyWireguard_works (ps ++ rest) (hok p (by simp)))).trans hrun
    · by_cases hqs : q ∈ ps
      · exact hc q hqs
      · obtain rfl : q = p := (List.mem_cons.mp hq).resolve_right hqs
        have wire := (applyWireguard_all own' (runWith_ends Prod.fst scripted_sound hrun)).1
        have other : ∀ i : Iface, i.name = q.ifaceName → (i ∈ w'.ifaces ↔
            i ∈ (wired q (address dns q) w).ifaces) := fun i hi => wire.others i fun r hr he =>
          hqs (own q (by simp) r (by simp [hr]) (hi.symm.trans he) ▸ hr)
        exact wired_configuredAt.of_named other

/-- Between its loops recovery holds no lock and has not written to these tables. -/
def Idle (t : Tables) (answers : List (Except PeerError SocketAddr)) (v : Scripted) : Prop :=
  v.1.locks = [] ∧ v.1.toTables = t ∧ v.2 = answers

variable {t : Tables} {v : Scripted}

lemma removeStopped_works (hv : Idle t answers v) :
    ∃ v', runWith (scripted cfg) (removeStopped p).run v = some (.ok (), v') ∧ Idle t answers v' := by
  obtain ⟨w, a⟩ := v
  exact ⟨_, withLock_works hv.1 (io_works _ _ rfl) rfl, rfl, hv.2.1, hv.2.2⟩

lemma removeUnlessDesired_works {names : List String} {name : String} (hv : Idle t answers v) :
    ∃ v', runWith (scripted cfg) (removeUnlessDesired names name).run v = some (.ok (), v') ∧
      Idle t answers v' := by
  unfold removeUnlessDesired
  split
  · exact ⟨v, rfl, hv⟩
  · obtain ⟨w, a⟩ := v
    exact ⟨_, io_works _ _ rfl, hv⟩

lemma removeDeleted_works {e : PeerChange} (hv : Idle t answers v) :
    ∃ v', runWith (scripted cfg) (removeDeleted e).run v = some (.ok (), v') ∧ Idle t answers v' := by
  unfold removeDeleted
  split
  · rw [runWith_bind_ok (a := v.1.row? e.peer.peerId) (io_works _ _ (w := v.1) rfl)]
    split
    · obtain ⟨w, a⟩ := v
      exact ⟨_, io_works _ _ rfl, hv⟩
    · exact ⟨v, rfl, hv⟩
  · exact ⟨v, rfl, hv⟩

variable (cfg answers) in
lemma finishDelete_works (h : ∃ r ∈ w.peers, r.peerId = p.peerId) :
    ∃ r, runWith (scripted cfg) (finishDelete p).run (w, answers) =
      some (.ok (), (w.withTables ((w.removeRow p.peerId).enqueue "DELETE" r), answers)) := by
  obtain ⟨r, hr⟩ := row?_of_exists h
  have he : w.deleteRow p.peerId = (true, (w.removeRow p.peerId).enqueue "DELETE" r) := by
    rw [Tables.deleteRow, hr]
  refine ⟨r, ?_⟩
  rw [finishDelete, runWith_bind_ok (a := true) (io_works _ _ (by rw [effect, he]))]
  rfl

variable (cfg answers) in
lemma activate_works (hl : w.locks = []) (h : ∃ r ∈ w.peers, r.peerId = p.peerId) :
    ∃ w', runWith (scripted cfg) (activate p).run (w, answers) = some (.ok (), (w', answers)) ∧
      w'.locks = [] ∧ ∀ r ∈ w.peers, ∃ r' ∈ w'.peers, r'.peerId = r.peerId := by
  obtain ⟨r, hr⟩ := row?_of_exists h
  have he : w.updateRow p.peerId (fun row => { row with status := PeerStatus.active.stored }) =
      (true, (w.replaceRow p.peerId activated).enqueue "UPDATE" (activated r)) := by
    rw [Tables.updateRow, hr]
    simp only [stored_active]
    rfl
  refine ⟨_, withLock_works hl (r := .ok ()) (v := World.withTables
    { w with locks := [.peer p.asn p.peerName] }
    ((w.replaceRow p.peerId activated).enqueue "UPDATE" (activated r))) ?_ rfl, rfl, fun q hq => ?_⟩
  · rw [runWith_bind_ok (a := true) (io_works _ _ (by rw [effect, he]))]
    rfl
  · by_cases hid : q.peerId = p.peerId
    · exact ⟨activated q, mem_replaceRow.mpr (.inr ⟨q, hq, hid, rfl⟩), rfl⟩
    · exact ⟨q, mem_replaceRow.mpr (.inl ⟨hq, hid⟩), rfl⟩

variable (cfg answers) in
theorem settleRows_works {peers : List Peer} (own : OwnRows w.peers) (hl : w.locks = [])
    (hm : ∀ p, p ∈ peers ↔ p ∈ w.peers) (hn : peers.Nodup) :
    ∃ w', runWith (scripted cfg) (settleRows peers).run (w, answers) =
      some (.ok (), (w', answers)) := by
  -- The rows that are not yet deleted are still there, and so are their ids later on.
  obtain ⟨⟨w₁, a₁⟩, hdel, hlocks, hrows, rfl⟩ := runWith_forM (scripted cfg) finishDelete
    (peers.filter fun peer => peer.status = .deleting) (w := (w, answers))
    (I := fun rest v => v.1.locks = [] ∧
      (∀ r ∈ w.peers, (r.status = .deleting → r ∈ rest) → r ∈ v.1.peers) ∧ v.2 = answers)
    ⟨hl, fun r hr _ => hr, rfl⟩ fun x ys v hs hI => by
      obtain ⟨v, a⟩ := v
      obtain ⟨hvl, hvr, rfl⟩ := hI
      obtain ⟨hx, hxd⟩ := List.mem_filter.mp (hs.subset List.mem_cons_self)
      have hxw := (hm x).mp hx
      obtain ⟨row, hrun⟩ := finishDelete_works cfg a ⟨x, hvr x hxw (by simp), rfl⟩
      refine ⟨_, hrun, hvl, fun r hr hrest => ?_, rfl⟩
      refine mem_removeRow.mpr ⟨hvr r hr fun hd => List.mem_cons_of_mem _ (hrest hd), fun hid => ?_⟩
      obtain rfl := List.inj_on_of_nodup_map own.ids hr hxw hid
      have hnodup : (r :: ys).Nodup := (hn.filter _).sublist hs.sublist
      exact (List.nodup_cons.mp hnodup).1 (hrest (by simpa using hxd))
  obtain ⟨⟨w₂, a₂⟩, hact, -, -, rfl⟩ := runWith_forM (scripted cfg) activate
    (peers.filter Peer.enabled) (w := (w₁, a₁))
    (I := fun _ v => v.1.locks = [] ∧
      (∀ r ∈ w.peers, r.enabled → ∃ r' ∈ v.1.peers, r'.peerId = r.peerId) ∧ v.2 = a₁)
    ⟨hlocks, fun r hr he => ⟨r, hrows r hr fun hd => by simp [Peer.enabled, hd] at he, rfl⟩, rfl⟩
    fun x ys v hs hI => by
      obtain ⟨v, a⟩ := v
      obtain ⟨hvl, hvr, rfl⟩ := hI
      obtain ⟨hx, hxe⟩ := List.mem_filter.mp (hs.subset List.mem_cons_self)
      obtain ⟨v', hrun, hvl', hids⟩ := activate_works cfg a hvl
        (hvr x ((hm x).mp hx) hxe)
      refine ⟨_, hrun, hvl', fun r hr he => ?_, rfl⟩
      obtain ⟨r', hr', hid⟩ := hvr r hr he
      obtain ⟨r'', hr'', hid'⟩ := hids r' hr'
      exact ⟨r'', hr'', hid'.trans hid⟩
  exact ⟨w₂, (runWith_bind_ok hdel).trans hact⟩

variable (cfg answers) in
/-- Once the interfaces are set up, nothing else stands in the way. -/
theorem publish_works {peers : List Peer} (own : OwnRows w.peers) (hl : w.locks = [])
    (hm : ∀ p, p ∈ peers ↔ p ∈ w.peers) (hn : peers.Nodup) :
    ∃ w', runWith (scripted cfg) (publish peers).run (w, answers) = some (.ok (), (w', answers)) := by
  have names : NamesValid peers := fun p hp _ => own.names p ((hm p).mp hp)
  obtain ⟨w₁, hnft, hl₁, ht₁⟩ : ∃ v, runWith (scripted cfg) (syncNftPortsFor peers).run (w, answers) =
      some (.ok (), (v, answers)) ∧ v.locks = [] ∧ v.toTables = w.toTables :=
    ⟨_, withLock_works hl (io_works _ _ rfl) rfl, rfl, rfl⟩
  obtain ⟨w₂, hbird, hl₂, ht₂⟩ : ∃ v, runWith (scripted cfg) (syncBirdConfigsFor peers true).run
      (w₁, answers) = some (.ok (), (v, answers)) ∧ v.locks = [] ∧ v.toTables = w.toTables := by
    have sync : (w₁.bird.sync cfg.localAsn peers true).1 = .ok () := by
      rw [Bird.sync, desiredGeneration_ok names]
      dsimp only
      split <;> rfl
    refine ⟨_, withLock_works hl₁ (r := .ok ())
      (v := { w₁ with locks := [.bird], bird := (w₁.bird.sync cfg.localAsn peers true).2 })
      (io_works _ _ ?_) rfl, rfl, ht₁⟩
    rw [effect, sync]
  obtain ⟨v₃, hstop, hi₃⟩ := runWith_forM (scripted cfg) removeStopped
    (peers.filter fun peer => !peer.enabled) (w := (w₂, answers))
    (I := fun _ => Idle w.toTables answers) ⟨hl₂, ht₂, rfl⟩ fun _ _ _ _ hv => removeStopped_works hv
  obtain ⟨v₄, hdrop, hi₄⟩ := runWith_forM (scripted cfg)
    (removeUnlessDesired ((peers.filter Peer.enabled).map Peer.ifaceName))
    ((v₃.1.ifaces.filter Iface.managed).map Iface.name) (w := v₃)
    (I := fun _ => Idle w.toTables answers) hi₃ fun _ _ _ _ hv => removeUnlessDesired_works hv
  obtain ⟨v₅, hdeleted, hi₅⟩ := runWith_forM (scripted cfg) removeDeleted
    v₄.1.listPeerChanges (w := v₄) (I := fun _ => Idle w.toTables answers) hi₄
    fun _ _ _ _ hv => removeDeleted_works hv
  obtain ⟨w₅, a₅⟩ := v₅
  obtain ⟨hl₅, ht₅, rfl⟩ := hi₅
  have same : w₅.peers = w.peers := congrArg Tables.peers ht₅
  obtain ⟨w', hrows⟩ := settleRows_works cfg a₅ (same ▸ own) hl₅
    (fun p => by rw [same, hm]) hn
  refine ⟨w', ?_⟩
  refine (runWith_bind_ok hnft).trans ((runWith_bind_ok hbird).trans ((runWith_bind_ok hstop).trans
    ((runWith_bind_ok (io_works _ _ (w := v₃.1) rfl)).trans ((runWith_bind_ok hdrop).trans
      ((runWith_bind_ok (io_works _ _ (w := v₄.1) rfl)).trans ((runWith_bind_ok hdeleted).trans hrows))))))

end Works

section Outcome
variable (own : OwnRows w.peers) (hl : w.locks = [])

lemma mem_desired : p ∈ desired cfg w ↔ p ∈ w.peers ∧ p.enabled = true := by
  simp [desired]

include own in
lemma desired_ownNames : OwnNames (desired cfg w) := fun _ hp _ hq =>
  own.unique (mem_desired.mp hp).1 (mem_desired.mp hq).1

include own in
lemma listPeers_nodup : (w.listPeers cfg).Nodup := by
  refine (List.perm_insertionSort _ _).nodup_iff.mpr ?_
  exact List.Nodup.of_map _ own.ids

lemma list_works :
    runWith (scripted cfg) recover.run (w, answers) =
      runWith (scripted cfg) ((desired cfg w).forM applyWireguard >>= fun _ =>
        publish (w.listPeers cfg)).run (w, answers) :=
  runWith_bind_ok (io_works _ _ rfl)

include own hl in
/-- With no failure every enabled peer is brought up. -/
theorem recover_without_failure (hok : ∀ p ∈ w.peers, p.enabled → fails dns p = false) :
    OthersRecovered cfg dns w := by
  obtain ⟨w₁, hwire, wire, set⟩ := wireguard_loop cfg w (desired cfg w) []
    (desired_ownNames own) fun p hp => hok p (mem_desired.mp hp).1 (mem_desired.mp hp).2
  rw [List.append_nil] at hwire
  have same : w₁.peers = w.peers := congrArg Tables.peers wire.tables
  have hm : ∀ p, p ∈ w.listPeers cfg ↔ p ∈ w₁.peers := fun p => by rw [same, mem_listPeers]
  obtain ⟨w', hpub⟩ := publish_works cfg (answersFor dns []) (same ▸ own)
    (wire.locks.trans hl) hm (listPeers_nodup own)
  refine ⟨.ok (), w', _, list_works.trans ((runWith_bind_ok hwire).trans hpub), fun p hp he hf => ?_⟩
  have fin := publish_spec (same ▸ own) hm (runWith_ends Prod.fst scripted_sound hpub)
  simp only [wire.tables] at fin
  have hfile : (rendering cfg.localAsn (w.listPeers cfg))[confName p]? =
      some (renderPeerConfig cfg.localAsn p) :=
    (rendering_get (own.perm (List.perm_insertionSort _ _)).distinct).mpr
      ⟨p, mem_listPeers.mpr hp, he, rfl, rfl⟩
  exact
    { interface := fin.kept p hp he _ (set p (mem_desired.mpr ⟨hp, he⟩))
      port := by
        rw [fin.nft, mem_nftPorts]
        exact ⟨p, mem_listPeers.mpr hp, he, rfl⟩
      file := by
        rw [fin.bird]
        exact hfile
      row := (fin.rows _).mpr ⟨p, hp, fun hd => by simp [Peer.enabled, hd] at he, by
        rw [recoveredRow, if_pos he]⟩ }

variable (cfg dns) in
include own in
/-- With a failure the run stops at the first one, and nothing is brought up that was not before. -/
theorem recover_with_failure (hfail : ∃ p ∈ w.peers, p.enabled ∧ fails dns p = true) :
    ∃ e w' rest, runWith (scripted cfg) recover.run (w, answersFor dns (desired cfg w)) =
        some (.error e, (w', rest)) ∧
      ∀ p ∈ w.peers, p.enabled → fails dns p = false →
        (BroughtUp cfg dns p w' ↔ UpBefore cfg dns w p) := by
  obtain ⟨f, post, hsplit, hf⟩ : ∃ f post, desired cfg w =
      (desired cfg w).takeWhile (fun q => !fails dns q) ++ f :: post ∧ fails dns f = true := by
    cases hd : (desired cfg w).dropWhile fun q => !fails dns q with
    | nil =>
      obtain ⟨p, hp, he, hfp⟩ := hfail
      have := List.dropWhile_eq_nil_iff.mp hd p (mem_desired.mpr ⟨hp, he⟩)
      simp [hfp] at this
    | cons f post =>
      refine ⟨f, post, by rw [← hd, List.takeWhile_append_dropWhile], ?_⟩
      have := List.head_dropWhile_not (p := fun q => !fails dns q) (l := desired cfg w)
        (by rw [hd]; simp)
      simpa [hd] using this
  have ownNames : OwnNames (desired cfg w) := desired_ownNames own
  have hfd : f ∈ desired cfg w := by
    rw [hsplit]
    simp
  obtain ⟨w₁, hwire, wire, set⟩ := wireguard_loop cfg w
    ((desired cfg w).takeWhile fun q => !fails dns q) (f :: post)
    (fun a ha b hb => ownNames a (List.takeWhile_subset _ ha) b (List.takeWhile_subset _ hb))
    fun p hp => by simpa using List.mem_takeWhile_imp hp
  obtain ⟨e, hstop⟩ := applyWireguard_fails cfg w₁ post hf
  have hrun : runWith (scripted cfg) ((desired cfg w).forM applyWireguard).run
      (w, answersFor dns (desired cfg w)) = some (.error e, (linked f w₁, answersFor dns post)) := by
    rw [hsplit, runWith_forM_append hwire]
    exact runWith_bind_error (x := applyWireguard f) (f := fun _ => post.forM applyWireguard) hstop
  refine ⟨e, linked f w₁, _, list_works.trans (runWith_bind_error hrun), fun p hp he hpf => ?_⟩
  have hpd : p ∈ desired cfg w := mem_desired.mpr ⟨hp, he⟩
  have hne : p.ifaceName ≠ f.ifaceName := fun h => by
    rw [ownNames p hpd f hfd h, hf] at hpf
    cases hpf
  have interface : ConfiguredAt (address dns p) p (linked f w₁) ↔
      p ∈ (desired cfg w).takeWhile (fun q => !fails dns q) ∨ ConfiguredAt (address dns p) p w := by
    constructor
    · intro hc
      refine or_iff_not_imp_left.mpr fun hnot => ?_
      have back := hc.same_but linked_sameBut.symm hne
      refine back.of_named fun i hi => (wire.others i fun q hq hiq => hnot ?_).symm
      rwa [ownNames p hpd q (List.takeWhile_subset _ hq) (hi.symm.trans hiq)]
    · intro h
      refine ConfiguredAt.same_but ?_ linked_sameBut hne
      by_cases hmem : p ∈ (desired cfg w).takeWhile fun q => !fails dns q
      · exact set p hmem
      · refine (h.resolve_left hmem).of_named fun i hi => wire.others i fun q hq hiq => hmem ?_
        rwa [ownNames p hpd q (List.takeWhile_subset _ hq) (hi.symm.trans hiq)]
  have tables : (linked f w₁).toTables = w.toTables := linked_toTables.trans wire.tables
  have rows : activated p ∈ (linked f w₁).peers ↔ p.status = .active := by
    rw [tables]
    constructor
    · intro hm
      rw [← List.inj_on_of_nodup_map own.ids hm hp rfl]
      rfl
    · intro ha
      rwa [activated_of_active ha]
  constructor
  · rintro ⟨hi, hport, hfile, hrow⟩
    rw [linked_nft, wire.nft] at hport
    rw [linked_bird, wire.bird] at hfile
    exact ⟨interface.mp hi, hport, hfile, rows.mp hrow⟩
  · rintro ⟨hi, hport, hfile, hrow⟩
    refine ⟨interface.mpr hi, ?_, ?_, rows.mpr hrow⟩
    · rwa [linked_nft, wire.nft]
    · rwa [linked_bird, wire.bird]

end Outcome

/-- Recovery isolates the peers that do not resolve exactly when there is none, or when the other
peers need nothing that comes after the first of them. -/
theorem othersRecovered_iff (own : OwnRows w.peers) (hl : w.locks = []) :
    OthersRecovered cfg dns w ↔ (∀ p ∈ w.peers, p.enabled → fails dns p = false) ∨
      ∀ p ∈ w.peers, p.enabled → fails dns p = false → UpBefore cfg dns w p := by
  by_cases hok : ∀ p ∈ w.peers, p.enabled → fails dns p = false
  · exact ⟨fun _ => .inl hok, fun _ => recover_without_failure own hl hok⟩
  · obtain ⟨e, w', rest, hrun, hup⟩ := recover_with_failure cfg dns own (by
      push Not at hok
      simpa using hok)
    constructor
    · rintro ⟨r, u, rest', hrun', hall⟩
      rw [hrun] at hrun'
      cases hrun'
      exact .inr fun p hp he hf => (hup p hp he hf).mp (hall p hp he hf)
    · rintro (h | h)
      · exact absurd h hok
      · exact ⟨.error e, w', rest, hrun, fun p hp he hf => (hup p hp he hf).mpr (h p hp he hf)⟩

section Sample

/-- Two enabled peers; the endpoint of the first one does not resolve. -/
def twoPeers : World :=
  { sampleWorld with
    peers := [{ sampleRow 1 "a" .active with endpoint := some "gone.example:51820" },
      sampleRow 2 "b" .active]
    events := []
    ifaces := []
    nft := [] }

def noAnswer (_ : Peer) : Except PeerError SocketAddr :=
  .error (.validation "DNS lookup failed for endpoint gone.example:51820")

/-- The second peer, which has no endpoint at all, is not brought up. -/
theorem twoPeers_not_recovered : ¬ OthersRecovered sampleConfig noAnswer twoPeers := by
  rintro ⟨r, w', rest, hrun, hall⟩
  have stopped : ((runWith (scripted sampleConfig) recover.run
      (twoPeers, answersFor noAnswer (desired sampleConfig twoPeers))).map fun x => x.2.1.nft) =
      some [] := by
    decide +kernel
  rw [hrun, Option.map_some, Option.some.injEq] at stopped
  have port := (hall (sampleRow 2 "b" .active) (by decide) (by decide) (by decide)).port
  rw [stopped] at port
  cases port

theorem othersRecovered_iff_twoPeers : OthersRecovered sampleConfig noAnswer twoPeers ↔
    (∀ p ∈ twoPeers.peers, p.enabled → fails noAnswer p = false) ∨
      ∀ p ∈ twoPeers.peers, p.enabled → fails noAnswer p = false →
        UpBefore sampleConfig noAnswer twoPeers p :=
  othersRecovered_iff ⟨by decide, by decide⟩ rfl

end Sample

end Autopeer.RecoveryIsolation
