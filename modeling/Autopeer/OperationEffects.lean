import Autopeer.ManagerFootprints
import Autopeer.Recovery
import Autopeer.RunFailures
import Autopeer.TableIdentity

/-! What the parts of an operation do when it runs alone, whichever of their calls fail: the state
they leave alone, and what they have done when none of their calls failed. -/
namespace Autopeer.OperationEffects
open Ipv6 PeerData BirdGeneration ProgramTree ProgramRuns RunFailures
open ManagerWorld ManagerPrograms ManagerSystem ManagerEffects ManagerRules
open InterfaceEffects Recovery TableIdentity Template
open ManagerFootprints (calls_syncNftPorts calls_applyPeer calls_removeExternalState)

/-- The answer is an error. -/
def refused : (e : Call) → Answer e → Bool
  | .lock _, _ | .unlock _, _ => false
  | .resolveEndpoint _, r => !r.isOk
  | .io _, r => !r.isOk

variable {cfg : Config} {P : Call → Outcome → Prop} {w w' : World} {failed : List Call} {p : Peer}

/-- From `w` the action can end with `r` in `w'` when the calls in `failed` have failed. -/
abbrev Runs {α : Type} (cfg : Config) (P : Call → Outcome → Prop) (w : World) (x : Manager α)
    (failed : List Call) (r : Except PeerError α) (w' : World) : Prop :=
  Suffers (exec cfg) refused P w x.run failed r w'

section Rules
variable {α β : Type}

/-- A call has its effect, or it is the one that failed. -/
lemma io_runs {c : Io} {r : Except PeerError c.Value} (h : Runs cfg P w (io c) failed r w') :
    (∃ v, r = .ok v ∧ failed = [] ∧ effect cfg c w = (.ok v, w')) ∨
      ∃ error o, r = .error error ∧ failed = [.io c] ∧ P (.io c) o ∧
        exec cfg o (.io c) w = some (.error error, w') := by
  obtain ⟨o, a, u, rest, hP, hx, hd, rfl⟩ := suffers_call.mp h
  obtain ⟨rfl, rfl, rfl⟩ := suffers_done.mp hd
  cases r with
  | ok v => exact .inl ⟨v, rfl, rfl, exec_ok hx⟩
  | error error => exact .inr ⟨error, o, rfl, rfl, hP, hx⟩

/-- A guarded body runs while the lock is held, whatever else the calls mean. -/
lemma withLock_suffers {O : Type} {run : O → (e : Call) → World → Option (Answer e × World)}
    {bad : (e : Call) → Answer e → Bool} {Q : Call → O → Prop}
    (locks : ∀ o l v r v', run o (.lock l) v = some (r, v') → v' = { v with locks := l :: v.locks })
    (unlocks : ∀ o l v r v', run o (.unlock l) v = some (r, v') →
      v' = { v with locks := v.locks.erase l })
    (fine : ∀ l r, bad (.lock l) r = false ∧ bad (.unlock l) r = false) {l : Lock}
    {body : Manager α} {r : Except PeerError α}
    (h : Suffers run bad Q w (withLock l body).run failed r w') :
    ∃ v, Suffers run bad Q { w with locks := l :: w.locks } body.run failed r v ∧
      w' = { v with locks := v.locks.erase l } := by
  obtain ⟨o, a, u, rest, -, hlock, hrest, rfl⟩ := suffers_call.mp h
  obtain ⟨b, v, first, second, hbody, hunlock, rfl⟩ := suffers_bind.mp hrest
  obtain ⟨o', a', u', rest', -, hx, hend, rfl⟩ := suffers_call.mp hunlock
  obtain ⟨rfl, rfl, rfl⟩ := suffers_done.mp hend
  obtain rfl := locks _ _ _ _ _ hlock
  refine ⟨v, ?_, unlocks _ _ _ _ _ hx⟩
  simpa [fine] using hbody

lemma exec_lock {o : Outcome} {l : Lock} {r : Unit} (h : exec cfg o (.lock l) w = some (r, w')) :
    w' = { w with locks := l :: w.locks } := by
  cases o <;> simp only [exec, Option.ite_none_left_eq_some, reduceCtorEq, Option.some.injEq,
    Prod.mk.injEq] at h
  exact h.2.2.symm

lemma exec_unlock {o : Outcome} {l : Lock} {r : Unit} (h : exec cfg o (.unlock l) w = some (r, w')) :
    w' = { w with locks := w.locks.erase l } := by
  cases o <;> simp only [exec, reduceCtorEq, Option.some.injEq, Prod.mk.injEq] at h
  exact h.2.symm

lemma withLock_runs {l : Lock} {body : Manager α} {r : Except PeerError α}
    (h : Runs cfg P w (withLock l body) failed r w') :
    ∃ v, Runs cfg P { w with locks := l :: w.locks } body failed r v ∧
      w' = { v with locks := v.locks.erase l } :=
  withLock_suffers (fun _ _ _ _ _ => exec_lock) (fun _ _ _ _ _ => exec_unlock)
    (fun _ _ => ⟨rfl, rfl⟩) h

lemma strict_io (c : Io) : Strict (exec cfg) refused P (io c) := by
  intro w failed r w' h
  rcases io_runs h with ⟨v, rfl, rfl, -⟩ | ⟨error, o, rfl, rfl, -⟩ <;> simp

lemma Strict.withLock {l : Lock} {body : Manager α} (hb : Strict (exec cfg) refused P body) :
    Strict (exec cfg) refused P (ManagerPrograms.withLock l body) := by
  intro w failed r w' h
  obtain ⟨v, hv, -⟩ := withLock_runs h
  exact hb _ _ _ _ hv

lemma strict_resolveOptional (text : Option String) :
    Strict (exec cfg) refused P (resolveOptional text) := by
  cases text with
  | none => exact Strict.pure none
  | some text =>
    refine Strict.bind (x := resolveEndpoint text) (fun w failed r w' h => ?_) fun a =>
      Strict.pure _
    obtain ⟨o, a, u, rest, -, -, hd, rfl⟩ := suffers_call.mp h
    obtain ⟨rfl, rfl, rfl⟩ := suffers_done.mp hd
    cases r <;> simp [refused, Except.isOk, Except.toBool]

lemma strict_syncBirdConfigs : Strict (exec cfg) refused P syncBirdConfigs :=
  (strict_io _).bind fun _ => Strict.withLock (strict_io _)

lemma strict_syncNftPorts : Strict (exec cfg) refused P syncNftPorts :=
  (strict_io _).bind fun _ => Strict.withLock (strict_io _)

lemma strict_applyWireguard (p : Peer) : Strict (exec cfg) refused P (applyWireguard p) :=
  (strict_io _).bind fun _ => (strict_resolveOptional _).bind fun _ =>
    (strict_io _).bind fun _ => strict_io _

lemma strict_applyPeer (p : Peer) : Strict (exec cfg) refused P (applyPeer p) :=
  (strict_applyWireguard p).bind fun _ => strict_syncBirdConfigs

lemma strict_removeExternalState (p : Peer) :
    Strict (exec cfg) refused P (removeExternalState p) :=
  strict_syncBirdConfigs.bind fun _ => strict_io _

end Rules

section Calls
variable {o : Outcome} {c : Io} {r : Except PeerError c.Value}

/-- The calls that only read. -/
def Reads : Io → Prop
  | .peerExists .. | .getPeer .. | .getPeerById _ | .listPeers | .listPeerChanges
  | .listenPortInUse _ | .listManagedInterfaces => True
  | _ => False

/-- The calls on the interface of one name. -/
def OnIface (name : String) : Io → Prop
  | .ensureWgInterface ifaceName _ _ | .configurePeer ifaceName _ _ _
  | .configureLocalAddress ifaceName _ | .deleteInterface ifaceName => ifaceName = name
  | _ => False

lemma effect_reads (hc : Reads c) : (effect cfg c w).2 = w := by
  cases c <;> first | rfl | exact hc.elim

lemma exec_reads (hc : Reads c) (h : exec cfg o (.io c) w = some (r, w')) : w' = w := by
  have same := @effect_reads cfg w _ hc
  cases o with
  | ok =>
    simp only [exec, Option.some.injEq] at h
    rw [← same, h]
  | resolved _ => simp [exec] at h
  | fail error =>
    simp only [exec, Option.some.injEq, Prod.mk.injEq] at h
    exact h.2.symm
  | late error => cases c <;> simp_all [exec]
  | half error => cases c <;> first | exact hc.elim | simp [exec] at h
  | birdFails failure error => cases c <;> first | exact hc.elim | simp [exec] at h

/-- Only interfaces named `name` have changed. -/
def OnlyIface (name : String) (w w' : World) : Prop :=
  w' = { w with ifaces := w'.ifaces } ∧ SameBut name w w'

lemma OnlyIface.refl (name : String) (w : World) : OnlyIface name w w := ⟨rfl, fun _ _ => Iff.rfl⟩

lemma OnlyIface.trans {name : String} {u v x : World} (huv : OnlyIface name u v)
    (hvx : OnlyIface name v x) : OnlyIface name u x := by
  refine ⟨?_, fun i hi => (hvx.2 i hi).trans (huv.2 i hi)⟩
  rw [hvx.1, huv.1]

lemma onlyIface_addLink (name : String) (w : World) : OnlyIface name w (w.addLink name) := by
  refine ⟨?_, fun i hi => mem_addLink_of_ne hi⟩
  rw [World.addLink]
  split <;> rfl

lemma onlyIface_setIface {name : String} {f : Iface → Iface} (hf : ∀ j, (f j).name = j.name)
    (w : World) : OnlyIface name w (w.setIface name f) :=
  ⟨rfl, fun _ hi => mem_setIface_of_ne hf hi⟩

lemma onlyIface_dropIface (name : String) (w : World) : OnlyIface name w (w.dropIface name) :=
  ⟨rfl, fun _ hi => by simp [mem_dropIface, hi]⟩

lemma effect_onIface {name : String} (hc : OnIface name c) :
    OnlyIface name w (effect cfg c w).2 := by
  cases c with
  | ensureWgInterface ifaceName peerId mtu =>
    obtain rfl : ifaceName = name := hc
    exact (onlyIface_addLink _ _).trans (onlyIface_setIface (by simp) _)
  | configurePeer ifaceName listenPort pubkey endpoint =>
    obtain rfl : ifaceName = name := hc
    rw [effect]
    split
    · exact onlyIface_setIface (by simp) _
    · exact OnlyIface.refl _ _
  | configureLocalAddress ifaceName address =>
    obtain rfl : ifaceName = name := hc
    rw [effect]
    split
    · exact onlyIface_setIface (by simp) _
    · exact OnlyIface.refl _ _
  | deleteInterface ifaceName =>
    obtain rfl : ifaceName = name := hc
    exact onlyIface_dropIface _ _
  | _ => exact hc.elim

lemma exec_onIface {name : String} (hc : OnIface name c)
    (h : exec cfg o (.io c) w = some (r, w')) : OnlyIface name w w' := by
  have done := @effect_onIface cfg w _ _ hc
  cases o with
  | ok =>
    simp only [exec, Option.some.injEq] at h
    rwa [h] at done
  | resolved _ => simp [exec] at h
  | fail error =>
    simp only [exec, Option.some.injEq, Prod.mk.injEq] at h
    rw [h.2]
    exact OnlyIface.refl _ _
  | late error => cases c <;> simp_all [exec, OnIface]
  | half error =>
    cases c with
    | ensureWgInterface ifaceName peerId mtu =>
      obtain rfl : ifaceName = name := hc
      simp only [exec, Option.some.injEq, Prod.mk.injEq] at h
      rw [← h.2]
      exact onlyIface_addLink _ _
    | _ => simp [exec] at h
  | birdFails failure error => cases c <;> simp_all [exec, OnIface]

lemma exec_syncBirdFiles {peers : List Peer} {forceReload : Bool} {r : Except PeerError Unit}
    (h : exec cfg o (.io (.syncBirdFiles peers forceReload)) w = some (r, w')) :
    w' = { w with bird := w'.bird } := by
  cases o with
  | ok =>
    simp only [exec, effect, Option.some.injEq, Prod.mk.injEq] at h
    rw [← h.2]
  | fail error =>
    simp only [exec, Option.some.injEq, Prod.mk.injEq] at h
    rw [h.2]
  | birdFails failure error =>
    obtain ⟨b, -, he⟩ := Option.map_eq_some_iff.mp h
    rw [← (Prod.mk.inj he).2]
  | _ => simp [exec] at h

lemma exec_runNftBatch {ports : List UInt16} {r : Except PeerError Unit}
    (h : exec cfg o (.io (.runNftBatch ports)) w = some (r, w')) :
    w' = { w with nft := w'.nft } ∧ (w'.nft = w.nft ∨ w'.nft = ports) := by
  cases o with
  | ok =>
    simp only [exec, effect, Option.some.injEq, Prod.mk.injEq] at h
    rw [← h.2]
    exact ⟨rfl, .inr rfl⟩
  | fail error =>
    simp only [exec, Option.some.injEq, Prod.mk.injEq] at h
    rw [h.2]
    exact ⟨rfl, .inl rfl⟩
  | late error =>
    simp only [exec, effect, Option.some.injEq, Prod.mk.injEq] at h
    rw [← h.2]
    exact ⟨rfl, .inr rfl⟩
  | _ => simp [exec] at h

end Calls

section Parts
variable {r : Except PeerError Unit}

/-- The sync of BIRD touches nothing but BIRD. -/
theorem syncBirdConfigs_runs (h : Runs cfg P w syncBirdConfigs failed r w') :
    w' = { w with bird := w'.bird } ∧ (r = .ok () → NamesValid w.peers ∧
      w'.bird.content = rendering cfg.localAsn (w.listPeers cfg)) := by
  obtain ⟨listed, u, first, second, hlist, hsync, rfl⟩ := suffers_run_bind.mp h
  rcases io_runs hlist with ⟨peers, rfl, -, hl⟩ | ⟨error, o, rfl, -, -, hx⟩
  · obtain ⟨hpeers, rfl⟩ := Prod.mk.inj hl
    cases hpeers
    obtain ⟨v, hv, rfl⟩ := withLock_runs hsync
    rcases io_runs hv with ⟨_, rfl, -, hb⟩ | ⟨error, o, rfl, -, -, hx⟩
    · obtain ⟨hok, rfl⟩ := Prod.mk.inj hb
      refine ⟨by simp, fun _ => ?_⟩
      cases hd : desiredGeneration cfg.localAsn (w.listPeers cfg) with
      | error e => simp [Bird.sync, hd] at hok
      | ok d =>
        obtain ⟨hn, rfl⟩ := desiredGeneration_inv hd
        refine ⟨fun p hp => hn p (mem_listPeers.mpr hp), ?_⟩
        simp only [Bird.sync, hd]
        split
        · rename_i hcur
          simpa [Bird.content] using congrArg (Option.getD · ∅) hcur
        · rfl
    · refine ⟨?_, fun hr => by cases hr⟩
      have same := exec_syncBirdFiles hx
      rw [same]
      simp
  · obtain rfl := exec_reads (c := .listPeers) trivial hx
    obtain ⟨-, rfl, rfl⟩ := suffers_done.mp hsync
    exact ⟨rfl, fun hr => by cases hr⟩

/-- The sync of the ports touches nothing but the nft set, and installs the listed ports or none. -/
theorem syncNftPorts_runs (h : Runs cfg P w syncNftPorts failed r w') :
    w' = { w with nft := w'.nft } ∧ (w'.nft = w.nft ∨ w'.nft = nftPorts (w.listPeers cfg)) ∧
      (r = .ok () → w'.nft = nftPorts (w.listPeers cfg)) := by
  obtain ⟨listed, u, first, second, hlist, hsync, rfl⟩ := suffers_run_bind.mp h
  rcases io_runs hlist with ⟨peers, rfl, -, hl⟩ | ⟨error, o, rfl, -, -, hx⟩
  · obtain ⟨hpeers, rfl⟩ := Prod.mk.inj hl
    cases hpeers
    obtain ⟨v, hv, rfl⟩ := withLock_runs hsync
    rcases io_runs hv with ⟨_, rfl, -, hb⟩ | ⟨error, o, rfl, -, -, hx⟩
    · obtain ⟨-, rfl⟩ := Prod.mk.inj hb
      exact ⟨by simp, .inr rfl, fun _ => rfl⟩
    · obtain ⟨same, hnft⟩ := exec_runNftBatch hx
      refine ⟨?_, hnft, fun hr => by cases hr⟩
      rw [same]
      simp
  · obtain rfl := exec_reads (c := .listPeers) trivial hx
    obtain ⟨-, rfl, rfl⟩ := suffers_done.mp hsync
    exact ⟨rfl, .inl rfl, fun hr => by cases hr⟩

theorem resolveOptional_runs {text : Option String} {r : Except PeerError (Option SocketAddr)}
    (h : Runs cfg P w (resolveOptional text) failed r w') : w' = w := by
  cases text with
  | none => exact (suffers_done.mp h).2.2
  | some text =>
    obtain ⟨a, u, first, second, hr, hend, -⟩ := suffers_run_bind.mp h
    obtain ⟨o, a', u', rest, -, hx, hd, -⟩ := suffers_call.mp hr
    obtain ⟨-, rfl, rfl⟩ := suffers_done.mp hd
    have hu : u = w := by
      cases o <;> simp only [exec, reduceCtorEq, Option.some.injEq, Prod.mk.injEq] at hx
      all_goals exact hx.2.symm
    subst hu
    cases a with
    | ok a => exact (suffers_done.mp hend).2.2
    | error e => exact (suffers_done.mp hend).2.2

lemma onIface_runs {c : Io} {name : String} {r : Except PeerError c.Value} (hc : OnIface name c)
    (h : Runs cfg P w (io c) failed r w') : OnlyIface name w w' := by
  rcases io_runs h with ⟨v, -, -, he⟩ | ⟨error, o, -, -, -, hx⟩
  · have done := @effect_onIface cfg w _ _ hc
    rwa [he] at done
  · exact exec_onIface hc hx

/-- The setup of an interface touches nothing but that interface. -/
theorem applyWireguard_runs (h : Runs cfg P w (applyWireguard p) failed r w') :
    OnlyIface p.ifaceName w w' := by
  obtain ⟨a, u, _, _, hensure, h, -⟩ := suffers_run_bind.mp h
  have linked := @onIface_runs _ _ _ _ _ (.ensureWgInterface _ _ _) p.ifaceName _ rfl hensure
  cases a with
  | error e => exact (suffers_done.mp h).2.2 ▸ linked
  | ok a =>
    obtain ⟨a, v, _, _, hresolve, h, -⟩ := suffers_run_bind.mp h
    obtain rfl := resolveOptional_runs hresolve
    cases a with
    | error e => exact (suffers_done.mp h).2.2 ▸ linked
    | ok endpoint =>
      obtain ⟨a, v', _, _, hpeer, h, -⟩ := suffers_run_bind.mp h
      have set := linked.trans
        (@onIface_runs _ _ _ _ _ (.configurePeer _ _ _ _) p.ifaceName _ rfl hpeer)
      cases a with
      | error e => exact (suffers_done.mp h).2.2 ▸ set
      | ok _ => exact set.trans (onIface_runs (c := .configureLocalAddress _ _) rfl h)

/-- Outside one interface and BIRD nothing has changed. -/
structure Around (name : String) (w w' : World) : Prop where
  tables : w'.toTables = w.toTables
  locks : w'.locks = w.locks
  nft : w'.nft = w.nft
  ifaces : SameBut name w w'

lemma OnlyIface.around {name : String} (h : OnlyIface name w w') : Around name w w' := by
  refine ⟨?_, ?_, ?_, h.2⟩ <;> rw [h.1]

lemma Around.trans {name : String} {u v x : World} (huv : Around name u v) (hvx : Around name v x) :
    Around name u x :=
  ⟨hvx.tables.trans huv.tables, hvx.locks.trans huv.locks, hvx.nft.trans huv.nft,
    fun i hi => (hvx.ifaces i hi).trans (huv.ifaces i hi)⟩

lemma around_bird {b : Bird} (name : String) : Around name w { w with bird := b } :=
  ⟨rfl, rfl, rfl, fun _ _ => Iff.rfl⟩

/-- `apply_peer` alone: the tables stay, and a run that ends well has set up the interface and
installed the files of the table. -/
theorem applyPeer_runs (h : Runs cfg P w (applyPeer p) failed r w') :
    Around p.ifaceName w w' ∧ (r = .ok () → Configured p w' ∧ NamesValid w.peers ∧
      w'.bird.content = rendering cfg.localAsn (w.listPeers cfg)) := by
  obtain ⟨a, u, _, _, hwg, hbird, -⟩ := suffers_run_bind.mp h
  have around := (applyWireguard_runs hwg).around
  cases a with
  | error e =>
    obtain ⟨-, rfl, rfl⟩ := suffers_done.mp hbird
    exact ⟨around, fun hr => by cases hr⟩
  | ok _ =>
    obtain ⟨endpoint, hsome, rfl⟩ := applyWireguard_ends hwg.ends
    obtain ⟨same, done⟩ := syncBirdConfigs_runs hbird
    rw [same]
    refine ⟨around.trans (around_bird _), fun hr => ⟨⟨endpoint, hsome, ?_⟩, ?_⟩⟩
    · exact wired_configuredAt.ifaces_eq rfl
    · simpa using done hr

/-- `remove_external_state` alone, likewise. -/
theorem removeExternalState_runs (h : Runs cfg P w (removeExternalState p) failed r w') :
    Around p.ifaceName w w' ∧ (r = .ok () → w'.hasIface p.ifaceName = false ∧
      NamesValid w.peers ∧ w'.bird.content = rendering cfg.localAsn (w.listPeers cfg)) := by
  obtain ⟨a, u, _, _, hbird, hdrop, -⟩ := suffers_run_bind.mp h
  obtain ⟨same, done⟩ := syncBirdConfigs_runs hbird
  have around : Around p.ifaceName w u := by
    rw [same]
    exact around_bird _
  cases a with
  | error e =>
    obtain ⟨-, rfl, rfl⟩ := suffers_done.mp hdrop
    exact ⟨around, fun hr => by cases hr⟩
  | ok _ =>
    have only := @onIface_runs _ _ _ _ _ (.deleteInterface _) p.ifaceName _ rfl hdrop
    refine ⟨around.trans only.around, fun hr => ?_⟩
    subst hr
    obtain ⟨-, rfl⟩ := Prod.mk.inj (io_ends hdrop.ends)
    exact ⟨dropIface_noIface, done rfl⟩

end Parts

section Rows
variable {row : Peer} {t u : Tables}

/-- The rows are those of `t`, but under the id of `row` stands `row`. -/
structure RowIs (row : Peer) (t u : Tables) : Prop where
  mem : ∀ q, q ∈ u.peers ↔ q = row ∨ (q ∈ t.peers ∧ q.peerId ≠ row.peerId)
  ids : (u.peers.map Peer.peerId).Nodup

/-- The rows are those of `t` without the row of one id. -/
structure RowGone (peerId : UInt32) (t u : Tables) : Prop where
  mem : ∀ q, q ∈ u.peers ↔ q ∈ t.peers ∧ q.peerId ≠ peerId
  ids : (u.peers.map Peer.peerId).Nodup

lemma RowIs.of_mem (ids : (t.peers.map Peer.peerId).Nodup) (h : row ∈ t.peers) : RowIs row t t := by
  refine ⟨fun q => ⟨fun hq => ?_, ?_⟩, ids⟩
  · by_cases hid : q.peerId = row.peerId
    · exact .inl (List.inj_on_of_nodup_map ids hq h hid)
    · exact .inr ⟨hq, hid⟩
  · rintro (rfl | ⟨hq, -⟩)
    · exact h
    · exact hq

lemma RowIs.row? (h : RowIs row t u) : u.row? row.peerId = some row :=
  row?_eq_of_mem h.ids ((h.mem row).mpr (.inl rfl))

lemma RowIs.update (h : RowIs row t u) {f : Peer → Peer} (hf : (f row).peerId = row.peerId)
    {operation : String} {p : Peer} :
    RowIs (f row) t ((u.replaceRow row.peerId f).enqueue operation p) := by
  have only : ∀ q ∈ u.peers, q.peerId = row.peerId → q = row := fun q hq hid =>
    List.inj_on_of_nodup_map h.ids hq ((h.mem row).mpr (.inl rfl)) hid
  constructor
  · intro q
    rw [enqueue_peers, mem_replaceRow, hf]
    constructor
    · rintro (⟨hq, hne⟩ | ⟨r, hr, hid, rfl⟩)
      · rcases (h.mem q).mp hq with rfl | hq
        · exact absurd rfl hne
        · exact .inr hq
      · exact .inl (by rw [only r hr hid])
    · rintro (rfl | ⟨hq, hne⟩)
      · exact .inr ⟨row, (h.mem row).mpr (.inl rfl), rfl, rfl⟩
      · exact .inl ⟨(h.mem q).mpr (.inr ⟨hq, hne⟩), hne⟩
  · have same : ((u.replaceRow row.peerId f).enqueue operation p).peers.map Peer.peerId =
        u.peers.map Peer.peerId := by
      rw [enqueue_peers, Tables.replaceRow, List.map_map]
      refine List.map_congr_left fun q hq => ?_
      simp only [Function.comp_apply]
      split
      · rename_i hid
        rw [only q hq hid, hf]
      · rfl
    rw [same]
    exact h.ids

lemma RowIs.remove (h : RowIs row t u) {operation : String} {p : Peer} :
    RowGone row.peerId t ((u.removeRow row.peerId).enqueue operation p) := by
  constructor
  · intro q
    rw [enqueue_peers, mem_removeRow, h.mem]
    constructor
    · rintro ⟨rfl | hq, hne⟩
      · exact absurd rfl hne
      · exact hq
    · exact fun hq => ⟨.inr hq, hq.2⟩
  · exact h.ids.sublist (List.filter_sublist.map _)

lemma RowGone.row? {peerId : UInt32} (h : RowGone peerId t u) : u.row? peerId = none :=
  List.find?_eq_none.mpr fun q hq => by simpa using ((h.mem q).mp hq).2

lemma RowGone.update {peerId : UInt32} {f : Peer → Peer} (h : RowGone peerId t u) :
    u.updateRow peerId f = (false, u) := by
  rcases updateRow_cases u peerId f with ⟨-, he⟩ | ⟨r, hr, -⟩
  · exact he
  · rw [h.row?] at hr
    cases hr

lemma RowGone.delete {peerId : UInt32} (h : RowGone peerId t u) : u.deleteRow peerId = (false, u) := by
  rcases deleteRow_cases u peerId with ⟨-, he⟩ | ⟨r, hr, -⟩
  · exact he
  · rw [h.row?] at hr
    cases hr

/-- The calls that write to the tables. -/
def Writes : Io → Prop
  | .deletePeerChange _ | .nextPeerId | .reservePeer .. | .updatePeerDesired _ | .setStatus ..
  | .deletePeer _ => True
  | _ => False

/-- The calls that leave the tables alone. -/
def Outside : Call → Prop
  | .io c => ¬Writes c
  | _ => True

lemma outside_syncNftPorts : Calls Outside syncNftPorts.run :=
  calls_syncNftPorts fun _ h => by cases h <;> first | exact id | trivial

lemma outside_applyPeer (p : Peer) : Calls Outside (applyPeer p).run :=
  calls_applyPeer (fun _ h => by cases h <;> first | exact id | trivial)
    fun _ h => by cases h <;> first | exact id | trivial

lemma outside_removeExternalState (p : Peer) : Calls Outside (removeExternalState p).run :=
  calls_removeExternalState (fun _ h => by cases h <;> first | exact id | trivial) id

/-- A statement of the database that reports an error has had no effect. -/
def Clean (P : Call → Outcome → Prop) : Prop :=
  ∀ c, Writes c → ∀ error, ¬P (.io c) (.late error)

lemma exec_writes {c : Io} {o : Outcome} {error : PeerError} (hc : Writes c)
    (h : exec cfg o (.io c) w = some (.error error, w')) :
    w' = w ∨ (∃ error, o = .late error) ∧ w' = (effect cfg c w).2 := by
  cases o with
  | ok =>
    refine .inl ?_
    simp only [exec, Option.some.injEq] at h
    cases c with
    | nextPeerId =>
      simp only [effect] at h
      split at h
      · cases (Prod.mk.inj h).1
      · exact (Prod.mk.inj h).2.symm
    | reservePeer peer test =>
      simp only [effect] at h
      split at h
      · cases (Prod.mk.inj h).1
      · split at h <;> cases (Prod.mk.inj h).1
    | updatePeerDesired peer =>
      simp only [effect] at h
      split at h
      · exact (Prod.mk.inj h).2.symm
      · cases (Prod.mk.inj h).1
    | deletePeerChange eventId => cases (Prod.mk.inj h).1
    | setStatus peerId status => cases (Prod.mk.inj h).1
    | deletePeer peerId => cases (Prod.mk.inj h).1
    | _ => exact hc.elim
  | resolved _ => simp [exec] at h
  | fail e =>
    simp only [exec, Option.some.injEq, Prod.mk.injEq] at h
    exact .inl h.2.symm
  | late e =>
    refine .inr ⟨⟨e, rfl⟩, ?_⟩
    cases c <;> first | exact hc.elim | (simp only [exec, Option.some.injEq] at h; rw [(Prod.mk.inj h).2])
  | half e => cases c <;> first | exact hc.elim | simp [exec] at h
  | birdFails failure e => cases c <;> first | exact hc.elim | simp [exec] at h

/-- A row write that failed cleanly. -/
lemma clean_error {c : Io} {o : Outcome} {error : PeerError} (clean : Clean P) (hc : Writes c)
    (ho : P (.io c) o) (h : exec cfg o (.io c) w = some (.error error, w')) : w' = w := by
  rcases exec_writes hc h with rfl | ⟨⟨e, rfl⟩, -⟩
  · rfl
  · exact absurd ho (clean c hc e)

/-- Only the tables have changed. -/
def OnlyTables (w w' : World) : Prop := w' = w.withTables w'.toTables

lemma setStatus_effect {status : PeerStatus} {r : Except PeerError Bool}
    (h : RowIs row t w.toTables) (he : effect cfg (.setStatus row.peerId status) w = (r, w')) :
    r = .ok true ∧ OnlyTables w w' ∧ RowIs { row with status := status.stored } t w'.toTables := by
  rcases updateRow_cases w.toTables row.peerId (fun q => { q with status := status.stored }) with
    ⟨hn, -⟩ | ⟨q, hq, hu⟩
  · rw [h.row?] at hn
    cases hn
  · simp only [effect, hu] at he
    obtain ⟨rfl, rfl⟩ := Prod.mk.inj he
    exact ⟨rfl, rfl, h.update (f := fun q => { q with status := status.stored }) rfl⟩

theorem setStatus_runs {peerId : UInt32} {status : PeerStatus} {r : Except PeerError Bool}
    (h : RowIs row t w.toTables) (hrun : Runs cfg P w (io (.setStatus peerId status)) failed r w')
    (hid : peerId = row.peerId) :
    OnlyTables w w' ∧
      ((r = .ok true ∧ RowIs { row with status := status.stored } t w'.toTables) ∨
        ∃ error, r = .error error ∧ failed = [.io (.setStatus peerId status)] ∧
          (RowIs row t w'.toTables ∨ RowIs { row with status := status.stored } t w'.toTables) ∧
          (Clean P → w' = w)) := by
  subst hid
  rcases io_runs hrun with ⟨v, rfl, -, he⟩ | ⟨error, o, rfl, rfl, ho, hx⟩
  · obtain ⟨hr, only, hrow⟩ := setStatus_effect h he
    exact ⟨only, .inl ⟨hr, hrow⟩⟩
  · have cleanly : Clean P → w' = w := fun clean => clean_error (c := .setStatus _ _) clean trivial ho hx
    rcases exec_writes (c := .setStatus _ _) trivial hx with rfl | ⟨-, rfl⟩
    · exact ⟨rfl, .inr ⟨error, rfl, rfl, .inl h, cleanly⟩⟩
    · obtain ⟨-, only, hrow⟩ := @setStatus_effect cfg _ _ _ _ status _ h rfl
      exact ⟨only, .inr ⟨error, rfl, rfl, .inr hrow, cleanly⟩⟩

theorem updatePeerDesired_runs {peer : Peer} {r : Except PeerError Bool} (clean : Clean P)
    (h : RowIs row t w.toTables) (hrun : Runs cfg P w (io (.updatePeerDesired peer)) failed r w')
    (hid : peer.peerId = row.peerId) :
    (r = .ok true ∧ failed = [] ∧ OnlyTables w w' ∧ RowIs (desiredColumns peer row) t w'.toTables) ∨
      ∃ error, r = .error error ∧ failed = [.io (.updatePeerDesired peer)] ∧ w' = w := by
  rcases io_runs hrun with ⟨v, rfl, rfl, he⟩ | ⟨error, o, rfl, rfl, ho, hx⟩
  · left
    simp only [effect] at he
    split at he
    · cases (Prod.mk.inj he).1
    · rcases updateRow_cases w.toTables peer.peerId (desiredColumns peer) with ⟨hn, -⟩ | ⟨q, hq, hu⟩
      · rw [hid, h.row?] at hn
        cases hn
      · rw [hu] at he
        obtain ⟨hv, rfl⟩ := Prod.mk.inj he
        cases hv
        rw [hid]
        exact ⟨rfl, rfl, rfl, h.update rfl⟩
  · exact .inr ⟨error, rfl, rfl, clean_error (c := .updatePeerDesired _) clean trivial ho hx⟩

lemma deletePeer_effect {r : Except PeerError Bool} (h : RowIs row t w.toTables)
    (he : effect cfg (.deletePeer row.peerId) w = (r, w')) :
    r = .ok true ∧ OnlyTables w w' ∧ RowGone row.peerId t w'.toTables := by
  rcases deleteRow_cases w.toTables row.peerId with ⟨hn, -⟩ | ⟨q, hq, hu⟩
  · rw [h.row?] at hn
    cases hn
  · simp only [effect, hu] at he
    obtain ⟨rfl, rfl⟩ := Prod.mk.inj he
    exact ⟨rfl, rfl, h.remove⟩

theorem deletePeer_runs {peerId : UInt32} {r : Except PeerError Bool}
    (h : RowIs row t w.toTables) (hrun : Runs cfg P w (io (.deletePeer peerId)) failed r w')
    (hid : peerId = row.peerId) :
    (r = .ok true ∧ OnlyTables w w' ∧ RowGone row.peerId t w'.toTables) ∨
      ∃ error, r = .error error ∧ failed = [.io (.deletePeer peerId)] ∧ (Clean P → w' = w) := by
  subst hid
  rcases io_runs hrun with ⟨v, rfl, rfl, he⟩ | ⟨error, o, rfl, rfl, ho, hx⟩
  · exact .inl (deletePeer_effect h he)
  · exact .inr ⟨error, rfl, rfl, fun clean => clean_error (c := .deletePeer _) clean trivial ho hx⟩

end Rows

section Keys
variable {row orig q : Peer} {t u : Tables}

/-- The keys of the table: ids and ports are unique and each interface name belongs to its id. -/
structure Keys (t : Tables) : Prop where
  own : OwnRows t.peers
  ports : ∀ p ∈ t.peers, ∀ q ∈ t.peers, p.listenPort = q.listenPort → p.peerId = q.peerId

/-- Every table that the service can come to has its keys. -/
lemma keys_of_identified (h : Identified t) : Keys t where
  own := ⟨h.rowIds, fun _ hp => Known.ifaceName h (h.rowBorn _ hp)⟩
  ports := fun _ hp _ hq he => congrArg Peer.peerId (List.inj_on_of_nodup_map h.rowPorts hp hq he)

lemma Keys.rowIs (hk : Keys t) (ho : orig ∈ t.peers) (hi : identity row = identity orig)
    (h : RowIs row t u) : Keys u := by
  have hid := identity_peerId hi
  have hport := identity_listenPort hi
  have origin : ∀ q ∈ u.peers, ∃ r ∈ t.peers,
      r.peerId = q.peerId ∧ r.listenPort = q.listenPort ∧ r.ifaceName = q.ifaceName := by
    intro q hq
    rcases (h.mem q).mp hq with rfl | ⟨hq, -⟩
    · exact ⟨orig, ho, hid.symm, hport.symm, (identity_ifaceName hi).symm⟩
    · exact ⟨q, hq, rfl, rfl, rfl⟩
  refine ⟨⟨h.ids, fun q hq => ?_⟩, fun p hp q hq he => ?_⟩
  · obtain ⟨r, hr, hrid, -, hname⟩ := origin q hq
    rw [← hname, ← hrid]
    exact hk.own.names r hr
  · obtain ⟨a, ha, haid, haport, -⟩ := origin p hp
    obtain ⟨b, hb, hbid, hbport, -⟩ := origin q hq
    rw [← haid, ← hbid]
    exact hk.ports a ha b hb (haport.trans (he.trans hbport.symm))

lemma Keys.rowGone {peerId : UInt32} (hk : Keys t) (h : RowGone peerId t u) : Keys u where
  own := ⟨h.ids, fun q hq => hk.own.names q ((h.mem q).mp hq).1⟩
  ports := fun p hp q hq => hk.ports p ((h.mem p).mp hp).1 q ((h.mem q).mp hq).1

lemma listPeers_distinct (own : OwnRows t.peers) :
    NamesDistinct ((t.listPeers cfg).filter Peer.enabled) :=
  (own.perm (List.perm_insertionSort _ _)).distinct

/-- The files of the table hold the file of each enabled row, and none of the others. -/
lemma rendering_row (own : OwnRows t.peers) (hq : q ∈ t.peers) :
    (rendering cfg.localAsn (t.listPeers cfg))[confName q]? =
      if q.enabled then some (renderPeerConfig cfg.localAsn q) else none := by
  have only : ∀ r ∈ t.peers, confName r = confName q → r = q := fun r hr hn =>
    List.inj_on_of_nodup_map own.ids hr hq
      ((confName_eq_iff (own.names r hr) (own.names q hq)).mp hn)
  split
  · rename_i he
    exact (rendering_get (listPeers_distinct own)).mpr ⟨q, mem_listPeers.mpr hq, he, rfl, rfl⟩
  · rename_i he
    rw [Option.eq_none_iff_forall_ne_some]
    intro content hc
    obtain ⟨r, hr, hre, hn, -⟩ := (rendering_get (listPeers_distinct own)).mp hc
    exact he (only r (mem_listPeers.mp hr) hn ▸ hre)

/-- They hold no file of an id that has no row. -/
lemma rendering_absent (own : OwnRows t.peers) (hn : p.ifaceName = wgpName p.peerId)
    (ha : ∀ r ∈ t.peers, r.peerId ≠ p.peerId) :
    (rendering cfg.localAsn (t.listPeers cfg))[confName p]? = none := by
  rw [Option.eq_none_iff_forall_ne_some]
  intro content hc
  obtain ⟨r, hr, -, hname, -⟩ := (rendering_get (listPeers_distinct own)).mp hc
  have hr := mem_listPeers.mp hr
  exact ha r hr ((confName_eq_iff (own.names r hr) hn).mp hname)

lemma nftPorts_row (hk : Keys t) (hq : q ∈ t.peers) :
    q.listenPort ∈ nftPorts (t.listPeers cfg) ↔ q.enabled = true := by
  rw [mem_nftPorts]
  constructor
  · rintro ⟨r, hr, he, hport⟩
    have hr := mem_listPeers.mp hr
    rwa [← List.inj_on_of_nodup_map hk.own.ids hr hq (hk.ports r hr q hq hport)]
  · exact fun he => ⟨q, mem_listPeers.mpr hq, he, rfl⟩

end Keys

section Sample

/-- An Active and a Disabled peer, with the external state that belongs to them. -/
def servedWorld : World :=
  let rows := [sampleRow 1 "a" .active, sampleRow 2 "b" .disabled]
  let files := rendering sampleConfig.localAsn rows
  { peers := rows, born := rows, peerSeq := 3, events := [], nextEvent := 1, locks := [],
    ifaces := [⟨"wgp1", some "dn42-autopeer:1", some 1420, some ⟨"key"⟩, none, some 20001,
      [asnLinkLocal 4242420000]⟩]
    nft := [20001]
    bird := ⟨some files, files⟩ }

lemma servedWorld_identified : Identified servedWorld.toTables where
  bornIds := by decide
  bornSeq := by decide
  bornNames := by decide
  rowBorn := fun p hp => ⟨p, hp, rfl⟩
  eventBorn := fun e he => by cases he
  rowIds := by decide
  rowPairs := by decide
  rowPorts := by decide
  eventIds := by decide
  eventNext := fun e he => by cases he

/-- Every call works, except the one. -/
def onlyFails (e : Call) (call : Call) : Outcome :=
  if call = e then .fail (.database "connection lost")
  else
    match call with
    | .resolveEndpoint _ => .resolved "192.0.2.1:51820"
    | _ => .ok

/-- No call reports an error after it took effect. -/
def noneLate (_ : Call) : Outcome → Prop
  | .late _ => False
  | _ => True

lemma clean_noneLate : Clean noneLate := fun _ _ _ h => h

lemma noneLate_onlyFails (e call : Call) : noneLate call (onlyFails e call) := by
  unfold onlyFails
  split
  · trivial
  · cases call <;> trivial

end Sample

end Autopeer.OperationEffects
