import Autopeer.OperationEffects

/-! A delete with at most one failing call: the peer is gone, or it is back in place, or its row is
left Deleting because the row itself could not be removed. This holds unless the call that fails is
an nft batch or a statement that took effect before its error was reported. -/
namespace Autopeer.DeleteRestoration
open Ipv6 PeerData BirdGeneration Template ProgramTree RunFailures
open ManagerWorld ManagerPrograms ManagerSystem ManagerEffects TableIdentity
open InterfaceEffects Recovery OperationEffects
open ManagerFootprints (calls_removeExternalState)

variable {cfg : Config} {P : Call → Outcome → Prop} {w w' : World} {failed : List Call}
  {asn : UInt32} {peerName : String} {peer : Peer} {t u : Tables}

/-- The interface of the peer is set up, its file is current and its port is admitted. -/
structure InPlace (cfg : Config) (peer : Peer) (w : World) : Prop where
  iface : Configured peer w
  file : w.bird.content[confName peer]? = some (renderPeerConfig cfg.localAsn peer)
  port : peer.listenPort ∈ w.nft

/-- The file of a row is as it was, or as the row asks for. -/
def FileKept (cfg : Config) (q : Peer) (w w' : World) : Prop :=
  w'.bird.content[confName q]? = w.bird.content[confName q]? ∨
    w'.bird.content[confName q]? = if q.enabled then some (renderPeerConfig cfg.localAsn q) else none

/-- The port of a row is as it was, or as the row asks for. -/
def PortKept (q : Peer) (w w' : World) : Prop :=
  (q.listenPort ∈ w'.nft ↔ q.listenPort ∈ w.nft) ∨ (q.listenPort ∈ w'.nft ↔ q.enabled = true)

/-- The interfaces, files and ports of the other peers. -/
structure OthersKept (cfg : Config) (peer : Peer) (w w' : World) : Prop where
  ifaces : SameBut peer.ifaceName w w'
  files : ∀ q ∈ w.peers, q.peerId ≠ peer.peerId → FileKept cfg q w w'
  ports : ∀ q ∈ w.peers, q.peerId ≠ peer.peerId → PortKept q w w'

/-- The row, once it is marked. -/
def marked (peer : Peer) : Peer := { peer with status := .deleting }

/-- The files and ports are those of the table. -/
def Published (cfg : Config) (u : Tables) (w : World) : Prop :=
  w.bird.content = rendering cfg.localAsn (u.listPeers cfg) ∧ w.nft = nftPorts (u.listPeers cfg)

/-- A table with the same other rows gives them the files and ports that they ask for. -/
lemma Published.others (hk : Keys u) (hrows : ∀ q ∈ w.peers, q.peerId ≠ peer.peerId → q ∈ u.peers)
    (h : Published cfg u w') (hs : SameBut peer.ifaceName w w') : OthersKept cfg peer w w' where
  ifaces := hs
  files := fun q hq hne => .inr (by rw [h.1, rendering_row hk.own (hrows q hq hne)])
  ports := fun q hq hne => .inr (by rw [h.2, nftPorts_row hk (hrows q hq hne)])

lemma OthersKept.same {v : World} (hb : w'.bird = v.bird) (hn : w'.nft = v.nft)
    (hi : w'.ifaces = v.ifaces) (h : OthersKept cfg peer w v) : OthersKept cfg peer w w' where
  ifaces := fun i hne => by rw [hi]; exact h.ifaces i hne
  files := fun q hq hne => by unfold FileKept; rw [hb]; exact h.files q hq hne
  ports := fun q hq hne => by unfold PortKept; rw [hn]; exact h.ports q hq hne

lemma othersKept_self : OthersKept cfg peer w w where
  ifaces := fun _ _ => Iff.rfl
  files := fun _ _ _ => .inl rfl
  ports := fun _ _ _ => .inl Iff.rfl

/-- The row and the external state of the peer, after a delete that ended with `r`. -/
def Deleted (cfg : Config) (peer : Peer) (failed : List Call) (r : Except PeerError Peer)
    (w w' : World) : Prop :=
  match r with
  | .ok _ => RowGone peer.peerId w.toTables w'.toTables ∧ w'.hasIface peer.ifaceName = false ∧
      w'.bird.content[confName peer]? = none ∧ peer.listenPort ∉ w'.nft
  | .error _ =>
    if .io (.deletePeer peer.peerId) ∈ failed then RowIs (marked peer) w.toTables w'.toTables
    else RowIs peer w.toTables w'.toTables ∧ InPlace cfg peer w'

/-- Every call works; the call of the step may also meet the outcome of the step. -/
def FailsOnly (step : Call × Outcome) (call : Call) (outcome : Outcome) : Prop :=
  outcome = .ok ∨ (∃ address, outcome = .resolved address) ∨ (call, outcome) = step

/-- The statements and the nft batch of a delete. -/
def Commits : Call → Prop
  | .io (.setStatus ..) | .io (.runNftBatch _) | .io (.deletePeer _) => True
  | _ => False

/-- A statement or an nft batch takes effect, but an error is reported: `run_nft_batch` gives up
after ten seconds, also when nft has just applied the batch. -/
def Landed (step : Call × Outcome) : Prop := Commits step.1 ∧ ∃ error, step.2 = .late error

/-- The statements and batches that failed had no effect. -/
def Clear (P : Call → Outcome → Prop) (failed : List Call) : Prop :=
  ∀ call ∈ failed, Commits call → ∃ error, P call (.fail error)

/-- One of them took effect. -/
def Landing (P : Call → Outcome → Prop) (failed : List Call) : Prop :=
  ∃ call ∈ failed, Commits call ∧ ∃ error, P call (.late error)

lemma clear_nil : Clear P [] := fun _ hm => nomatch hm

lemma Clear.of_calls {C : Call → Prop} (hc : ∀ call ∈ failed, C call)
    (other : ∀ call, C call → ¬Commits call) : Clear P failed :=
  fun call hm commits => absurd commits (other call (hc call hm))

lemma commits_error {c : Io} {o : Outcome} {error : PeerError} (hc : Commits (.io c))
    (ho : P (.io c) o) (h : exec cfg o (.io c) w = some (.error error, w')) :
    (Clear P [.io c] ∧ w' = w) ∨ (Landing P [.io c] ∧ w' = (effect cfg c w).2) := by
  cases o with
  | fail e =>
    simp only [exec, Option.some.injEq, Prod.mk.injEq] at h
    refine .inl ⟨fun call hm _ => ?_, h.2.symm⟩
    obtain rfl := List.mem_singleton.mp hm
    exact ⟨e, ho⟩
  | late e =>
    refine .inr ⟨⟨_, List.mem_singleton_self _, hc, e, ho⟩, ?_⟩
    cases c <;> first
      | exact hc.elim
      | (simp only [exec, Option.some.injEq, Prod.mk.injEq] at h; exact h.2.symm)
  | _ => cases c <;> first | exact hc.elim | simp [exec, effect] at h

/-- The part of a delete after the row was marked, from the state `w`. -/
inductive Dismantled (cfg : Config) (P : Call → Outcome → Prop) (peer : Peer) (t : Tables)
    (w : World) : List Call → Except PeerError Peer → World → Prop
  | gone {w' : World} {reply : Peer} (row : RowGone peer.peerId t w'.toTables)
      (iface : w'.hasIface peer.ifaceName = false) (published : Published cfg w.toTables w')
      (others : SameBut peer.ifaceName w w') : Dismantled cfg P peer t w [] (.ok reply) w'
  | left {w' : World} {error : PeerError} (clear : Clear P [.io (.deletePeer peer.peerId)])
      (row : RowIs (marked peer) t w'.toTables) (published : Published cfg w.toTables w')
      (others : SameBut peer.ifaceName w w') :
      Dismantled cfg P peer t w [.io (.deletePeer peer.peerId)] (.error error) w'
  | untouched {w' : World} {failed : List Call} {error : PeerError} (clear : Clear P failed)
      (call : .io (.deletePeer peer.peerId) ∉ failed) (row : RowIs peer t w'.toTables)
      (ifaces : w'.ifaces = w.ifaces) (bird : w'.bird = w.bird) (nft : w'.nft = w.nft) :
      Dismantled cfg P peer t w failed (.error error) w'
  | restored {w' : World} {failed : List Call} {error : PeerError} (clear : Clear P failed)
      (call : .io (.deletePeer peer.peerId) ∉ failed) (row : RowIs peer t w'.toTables)
      (iface : Configured peer w') (published : Published cfg w'.toTables w')
      (others : SameBut peer.ifaceName w w') : Dismantled cfg P peer t w failed (.error error) w'
  /-- The batch without the port was applied, and no other batch follows. -/
  | closed {w' : World} {failed : List Call} {error : PeerError} (landing : Landing P failed)
      (call : .io (.deletePeer peer.peerId) ∉ failed) (nft : w'.nft = nftPorts (w.listPeers cfg)) :
      Dismantled cfg P peer t w failed (.error error) w'
  /-- The row is gone. -/
  | lost {w' : World} {error : PeerError} (landing : Landing P [.io (.deletePeer peer.peerId)])
      (row : RowGone peer.peerId t w'.toTables) :
      Dismantled cfg P peer t w [.io (.deletePeer peer.peerId)] (.error error) w'

/-- A sync of the ports that fails has changed nothing, or its batch was applied. -/
lemma syncNftPorts_error {error : PeerError}
    (h : Runs cfg P w syncNftPorts failed (.error error) w') :
    (Clear P failed ∧ w' = w) ∨ (Landing P failed ∧ w' = { w with nft := nftPorts (w.listPeers cfg) }) := by
  obtain ⟨listed, v, first, second, hlist, hsync, rfl⟩ := suffers_run_bind.mp h
  rcases io_runs hlist with ⟨peers, rfl, rfl, hl⟩ | ⟨e, o, rfl, rfl, -, hx⟩
  · obtain ⟨hpeers, rfl⟩ := Prod.mk.inj hl
    cases hpeers
    obtain ⟨v, hv, rfl⟩ := withLock_runs hsync
    rcases io_runs hv with ⟨_, hr, -⟩ | ⟨e, o, -, rfl, ho, hx⟩
    · cases hr
    · rcases commits_error (c := .runNftBatch _) trivial ho hx with ⟨clear, rfl⟩ | ⟨landing, rfl⟩
      · exact .inl ⟨clear, by simp⟩
      · exact .inr ⟨landing, by simp [effect]⟩
  · obtain rfl := exec_reads (c := .listPeers) trivial hx
    obtain ⟨rfl, -, rfl⟩ := suffers_done.mp hsync
    exact .inl ⟨Clear.of_calls (C := (· = .io .listPeers)) (by simp) (by rintro _ rfl; exact id), rfl⟩

/-- The restoring steps, when they all work. -/
lemma restore_runs (active : peer.status = .active) {error : PeerError}
    {r : Except PeerError Peer} (hrow : RowIs (marked peer) t w.toTables)
    (h : Runs cfg P w (do
      match ← attempt (io (.setStatus peer.peerId .active)) with
      | .error _ => throw error
      | .ok _ =>
        match ← attempt (applyPeer peer) with
        | .error _ => throw error
        | .ok _ => do
          let _ ← attempt syncNftPorts
          throw error : Manager Peer) [] r w') :
    r = .error error ∧ RowIs peer t w'.toTables ∧ Configured peer w' ∧
      Published cfg w'.toTables w' ∧ SameBut peer.ifaceName w w' := by
  obtain ⟨a, w₁, first, second, hset, hrest, hf⟩ := suffers_attempt_bind.mp h
  obtain ⟨rfl, rfl⟩ := List.append_eq_nil_iff.mp hf.symm
  obtain ⟨only, ⟨rfl, hrow₁⟩ | ⟨e, -, hne, -⟩⟩ := setStatus_runs hrow hset rfl
  swap
  · cases hne
  have back : ({ marked peer with status := PeerStatus.active.stored } : Peer) = peer := by
    rw [stored_active, ← active]
    rfl
  rw [back] at hrow₁
  obtain ⟨b, w₂, first, second, happly, hlast, hf⟩ := suffers_attempt_bind.mp hrest
  obtain ⟨rfl, rfl⟩ := List.append_eq_nil_iff.mp hf.symm
  obtain ⟨_, rfl⟩ := (strict_applyPeer peer).works happly
  obtain ⟨around, done⟩ := applyPeer_runs happly
  obtain ⟨conf, -, files⟩ := done rfl
  obtain ⟨c, w₃, first, second, hnft, hend, hf⟩ := suffers_attempt_bind.mp hlast
  obtain ⟨rfl, rfl⟩ := List.append_eq_nil_iff.mp hf.symm
  obtain ⟨_, rfl⟩ := strict_syncNftPorts.works hnft
  obtain ⟨same, -, ports⟩ := syncNftPorts_runs hnft
  obtain ⟨-, rfl, rfl⟩ := suffers_done.mp hend
  have tables : w'.toTables = w₁.toTables := by rw [same]; exact around.tables
  have ifaces : w'.ifaces = w₂.ifaces := by rw [same]
  have bird : w'.bird = w₂.bird := by rw [same]
  refine ⟨rfl, tables ▸ hrow₁, ?_, ⟨?_, ?_⟩, fun i hi => ?_⟩
  · exact Configured.ifaces_eq conf ifaces
  · rw [bird, files, tables]
  · rw [ports rfl, around.tables, tables]
  · have before : w₁.ifaces = w.ifaces := by rw [only]; rfl
    rw [ifaces, around.ifaces i hi, before]

lemma clear_removeExternalState (h : Runs cfg P w (removeExternalState peer) failed r w') :
    Clear P failed := by
  have other : Calls (fun call => ¬Commits call) (removeExternalState peer).run :=
    calls_removeExternalState (fun _ hc => by cases hc <;> exact id) id
  exact Clear.of_calls (h.calls other) fun _ => id

theorem dismantle_runs (active : peer.status = .active)
    (hrow : RowIs (marked peer) t w.toTables) (one : failed.length ≤ 1)
    {r : Except PeerError Peer} (h : Runs cfg P w (dismantle asn peerName peer) failed r w') :
    Dismantled cfg P peer t w failed r w' := by
  obtain ⟨a, w₁, first, second, hnft, hrest, rfl⟩ := suffers_attempt_bind.mp h
  have single : first ≠ [] → second = [] := by
    intro hne
    have := List.length_pos_iff.mpr hne
    rw [List.length_append] at one
    exact List.length_eq_zero_iff.mp (by omega)
  obtain ⟨same₁, -, ports⟩ := syncNftPorts_runs hnft
  cases a with
  | error e =>
    obtain rfl := single (strict_syncNftPorts.error hnft)
    obtain ⟨b, w₂, first', second', hset, hend, hf⟩ := suffers_attempt_bind.mp hrest
    obtain ⟨rfl, rfl⟩ := List.append_eq_nil_iff.mp hf.symm
    obtain ⟨-, rfl, rfl⟩ := suffers_done.mp hend
    rw [List.append_nil]
    have call : .io (.deletePeer peer.peerId) ∉ first := fun hm =>
      hnft.calls outside_syncNftPorts _ hm trivial
    have tables₁ : w₁.toTables = w.toTables := by rw [same₁]
    rw [← tables₁] at hrow
    obtain ⟨only, ⟨-, hrow'⟩ | ⟨e, -, hne, -⟩⟩ := setStatus_runs hrow hset rfl
    swap
    · cases hne
    -- The row is set Active again in both cases, but the ports are not synced a second time.
    rcases syncNftPorts_error hnft with ⟨clear, rfl⟩ | ⟨landing, rfl⟩
    · refine .untouched clear call ?_ ?_ ?_ ?_
      · have back : ({ marked peer with status := PeerStatus.active.stored } : Peer) = peer := by
          rw [stored_active, ← active]
          rfl
        rwa [back] at hrow'
      · rw [only]; rfl
      · rw [only]; rfl
      · rw [only]; rfl
    · exact .closed landing call (by rw [only]; rfl)
  | ok _ =>
    obtain rfl := strict_syncNftPorts.ok hnft
    have tables₁ : w₁.toTables = w.toTables := by rw [same₁]
    have ifaces₁ : w₁.ifaces = w.ifaces := by rw [same₁]
    rw [← tables₁] at hrow
    obtain ⟨b, w₂, third, fourth, hremove, hlast, rfl⟩ := suffers_attempt_bind.mp hrest
    obtain ⟨around, done⟩ := removeExternalState_runs hremove
    have tables₂ : w₂.toTables = w.toTables := around.tables.trans tables₁
    have others₂ : SameBut peer.ifaceName w w₂ := fun i hi => by
      rw [around.ifaces i hi, ifaces₁]
    cases b with
    | error e =>
      have hthird : third ≠ [] := (strict_removeExternalState peer).error hremove
      obtain rfl : fourth = [] := by
        have := List.length_pos_iff.mpr hthird
        rw [List.nil_append, List.length_append] at one
        exact List.length_eq_zero_iff.mp (by omega)
      rw [← around.tables] at hrow
      obtain ⟨rfl, hrow', conf, published, others⟩ := restore_runs active hrow hlast
      refine .restored (by simpa using clear_removeExternalState hremove) ?_ hrow' conf published
        fun i hi => (others i hi).trans (others₂ i hi)
      intro hm
      have touched := hremove.calls (outside_removeExternalState peer) _ (by simpa using hm)
      exact touched trivial
    | ok _ =>
      obtain rfl := (strict_removeExternalState peer).ok hremove
      obtain ⟨noIface, -, files⟩ := done rfl
      have published : Published cfg w.toTables w₂ := by
        refine ⟨by rw [files, tables₁], ?_⟩
        rw [around.nft, ports rfl]
      rw [← around.tables] at hrow
      obtain ⟨c, w₃, fifth, sixth, hdel, hend, hf⟩ := suffers_run_bind.mp hlast
      rcases io_runs hdel with ⟨v, rfl, rfl, he⟩ | ⟨e, o, rfl, rfl, ho, hx⟩
      · obtain ⟨hv, only, hgone⟩ := deletePeer_effect hrow he
        cases hv
        obtain ⟨rfl, rfl, rfl⟩ := suffers_done.mp hend
        obtain rfl : fourth = [] := by simpa using hf
        refine .gone hgone ?_ ?_ ?_
        · rw [only]; exact noIface
        · rw [only]; exact published
        · rw [only]; exact others₂
      · obtain ⟨rfl, rfl, rfl⟩ := suffers_done.mp hend
        obtain rfl : fourth = [.io (.deletePeer peer.peerId)] := by simpa using hf
        rcases commits_error (c := .deletePeer _) trivial ho hx with ⟨clear, rfl⟩ | ⟨landing, rfl⟩
        · exact .left clear hrow published others₂
        · have effect_gone := @deletePeer_effect cfg
          exact .lost landing (effect_gone hrow rfl).2.2

lemma marked_not_enabled : (marked peer).enabled = false := by simp [marked, Peer.enabled]

lemma identity_marked : identity (marked peer) = identity peer := rfl

/-- The delete has kept its promise, or a call took effect in spite of its error and it has not. -/
def Settled (cfg : Config) (P : Call → Outcome → Prop) (peer : Peer) (failed : List Call)
    (r : Except PeerError Peer) (w w' : World) : Prop :=
  (Clear P failed ∧ Deleted cfg peer failed r w w' ∧ OthersKept cfg peer w w') ∨
    (Landing P failed ∧ ¬Deleted cfg peer failed r w w')

lemma Dismantled.settled {r : Except PeerError Peer} (hk : Keys w.toTables) (hm : peer ∈ w.peers)
    (active : peer.status = .active) (placed : InPlace cfg peer w) {v : World} (only : OnlyTables w v)
    (hrow : RowIs (marked peer) w.toTables v.toTables)
    (h : Dismantled cfg P peer w.toTables v failed r w') : Settled cfg P peer failed r w w' := by
  have ifaces : v.ifaces = w.ifaces := by rw [only]; rfl
  have bird : v.bird = w.bird := by rw [only]; rfl
  have nft : v.nft = w.nft := by rw [only]; rfl
  have hkv : Keys v.toTables := hk.rowIs hm identity_marked hrow
  have own : marked peer ∈ v.peers := (hrow.mem _).mpr (.inl rfl)
  have shut : peer.listenPort ∉ nftPorts (v.listPeers cfg) := by
    have port := @nftPorts_row cfg _ _ hkv own
    rw [marked_not_enabled] at port
    exact fun hp => Bool.false_ne_true (port.mp hp)
  have rows : ∀ q ∈ w.peers, q.peerId ≠ peer.peerId → q ∈ v.peers := fun q hq hne =>
    (hrow.mem q).mpr (.inr ⟨hq, hne⟩)
  have others : ∀ {u : World}, SameBut peer.ifaceName v u → SameBut peer.ifaceName w u :=
    fun hs i hi => by rw [hs i hi, ifaces]
  cases h with
  | gone row iface published hs =>
    refine .inl ⟨clear_nil, ⟨row, iface, ?_, ?_⟩, published.others hkv rows (others hs)⟩
    · rw [published.1]
      have file := @rendering_row cfg _ _ hkv.own own
      rwa [marked_not_enabled] at file
    · rw [published.2]
      exact shut
  | left clear row published hs =>
    refine .inl ⟨clear, ?_, published.others hkv rows (others hs)⟩
    rw [Deleted, if_pos (List.mem_singleton_self _)]
    exact row
  | untouched clear call row hi hb hn =>
    refine .inl ⟨clear, ?_, othersKept_self.same (hb.trans bird) (hn.trans nft) (hi.trans ifaces)⟩
    rw [Deleted, if_neg call]
    refine ⟨row, ?_, ?_, ?_⟩
    · exact Configured.ifaces_eq placed.iface (hi.trans ifaces)
    · rw [hb, bird]
      exact placed.file
    · rw [hn, nft]
      exact placed.port
  | restored clear call row conf published hs =>
    have hk' := hk.rowIs hm rfl row
    have mem : peer ∈ w'.peers := (row.mem _).mpr (.inl rfl)
    have enabled : peer.enabled = true := by simp [Peer.enabled, active]
    refine .inl ⟨clear, ?_,
      published.others hk' (fun q hq hne => (row.mem q).mpr (.inr ⟨hq, hne⟩)) (others hs)⟩
    rw [Deleted, if_neg call]
    refine ⟨row, conf, ?_, ?_⟩
    · rw [published.1, rendering_row hk'.own mem, if_pos enabled]
    · rw [published.2]
      exact (nftPorts_row hk' mem).mpr enabled
  | closed landing call hn =>
    refine .inr ⟨landing, fun deleted => ?_⟩
    rw [Deleted, if_neg call] at deleted
    have port := deleted.2.port
    rw [hn] at port
    exact shut port
  | lost landing row =>
    refine .inr ⟨landing, fun deleted => ?_⟩
    rw [Deleted, if_pos (List.mem_singleton_self _)] at deleted
    exact ((row.mem _).mp ((deleted.mem _).mpr (.inl rfl))).2 rfl

lemma InPlace.locks {l : List Lock} (h : InPlace cfg peer w) :
    InPlace cfg peer { w with locks := l } := ⟨h.iface, h.file, h.port⟩

lemma Deleted.locks {r : Except PeerError Peer} {l l' : List Lock}
    (h : Deleted cfg peer failed r { w with locks := l } w') :
    Deleted cfg peer failed r w { w' with locks := l' } := by
  cases r with
  | ok _ => exact h
  | error error =>
    by_cases hc : .io (.deletePeer peer.peerId) ∈ failed
    · rw [Deleted, if_pos hc] at h ⊢
      exact h
    · rw [Deleted, if_neg hc] at h ⊢
      exact ⟨h.1, h.2.locks⟩

lemma OthersKept.locks {l l' : List Lock} (h : OthersKept cfg peer { w with locks := l } w') :
    OthersKept cfg peer w { w' with locks := l' } := ⟨h.ifaces, h.files, h.ports⟩

lemma Settled.locks {r : Except PeerError Peer} {l l' : List Lock}
    (h : Settled cfg P peer failed r { w with locks := l } w') :
    Settled cfg P peer failed r w { w' with locks := l' } := by
  rcases h with ⟨clear, deleted, others⟩ | ⟨landing, spoilt⟩
  · exact .inl ⟨clear, deleted.locks, others.locks⟩
  · exact .inr ⟨landing, fun deleted => spoilt deleted.locks⟩

theorem deletePeer_runs (hk : Keys w.toTables)
    (found : w.rowOf? asn peerName = some peer) (active : peer.status = .active)
    (placed : InPlace cfg peer w) {r : Except PeerError Peer} (one : failed.length ≤ 1)
    (h : Runs cfg P w (deletePeer asn peerName) failed r w') : Settled cfg P peer failed r w w' := by
  have mem : peer ∈ w.peers := (rowOf?_some found).1
  obtain ⟨v, hbody, rfl⟩ := withLock_runs h
  obtain ⟨v₀, hv₀⟩ : ∃ v₀ : World, v₀ = { w with locks := .peer asn peerName :: w.locks } := ⟨_, rfl⟩
  rw [← hv₀] at hbody
  suffices key : Settled cfg P peer failed r v₀ v by
    subst hv₀
    exact key.locks
  have tables : v₀.toTables = w.toTables := by rw [hv₀]
  have placed₀ : InPlace cfg peer v₀ := hv₀ ▸ placed.locks
  rw [← tables] at hk found mem
  have start : RowIs peer v₀.toTables v₀.toTables := .of_mem hk.own.ids mem
  have untouched : ∀ (failed : List Call) (error : PeerError), Clear P failed →
      .io (.deletePeer peer.peerId) ∉ failed → Settled cfg P peer failed (.error error) v₀ v₀ := by
    intro failed error clear hn
    refine .inl ⟨clear, ?_, othersKept_self⟩
    rw [Deleted, if_neg hn]
    exact ⟨start, placed₀⟩
  obtain ⟨a, w₁, first, second, hget, hrest, rfl⟩ := suffers_run_bind.mp hbody
  rcases io_runs hget with ⟨row, rfl, rfl, he⟩ | ⟨e, o, rfl, rfl, -, hx⟩
  swap
  · obtain rfl := exec_reads (c := .getPeer _ _) trivial hx
    obtain ⟨rfl, rfl, rfl⟩ := suffers_done.mp hrest
    exact untouched _ e (Clear.of_calls (C := (· = .io (.getPeer asn peerName))) (by simp)
      (by rintro _ rfl; exact id)) (by simp)
  obtain ⟨hrow, rfl⟩ := Prod.mk.inj he
  obtain rfl : some peer = row := found ▸ Except.ok.inj hrow
  obtain ⟨a, w₂, first, second, hfound, hmark, rfl⟩ := suffers_run_bind.mp hrest
  obtain ⟨rfl, rfl, rfl⟩ := suffers_done.mp hfound
  obtain ⟨a, w₃, first, second, hset, hwork, rfl⟩ := suffers_run_bind.mp hmark
  rcases io_runs hset with ⟨stored, rfl, rfl, he⟩ | ⟨e, o, rfl, rfl, ho, hx⟩
  · obtain ⟨hstored, only, hrow⟩ := setStatus_effect start he
    cases hstored
    rw [stored_deleting] at hrow
    have dismantled := dismantle_runs active hrow (by simpa using one) hwork
    exact dismantled.settled hk mem active placed₀ only hrow
  · obtain ⟨rfl, rfl, rfl⟩ := suffers_done.mp hwork
    rcases commits_error (c := .setStatus _ _) trivial ho hx with ⟨clear, rfl⟩ | ⟨landing, rfl⟩
    · exact untouched _ e (by simpa using clear) (by simp)
    · -- The row is marked, and nothing sets it Active again.
      obtain ⟨-, -, hrow⟩ := @setStatus_effect cfg _ _ _ _ .deleting _ start rfl
      rw [stored_deleting] at hrow
      refine .inr ⟨by simpa using landing, fun deleted => ?_⟩
      rw [Deleted, if_neg (by simp)] at deleted
      rcases (deleted.1.mem _).mp ((hrow.mem _).mpr (.inl rfl)) with he | ⟨-, hne⟩
      · exact absurd (congrArg Peer.status he) (by simp [active])
      · exact hne rfl

lemma landing_failsOnly {step : Call × Outcome} :
    Landing (FailsOnly step) failed ↔ Landed step ∧ step.1 ∈ failed := by
  constructor
  · rintro ⟨call, hm, commits, error, ho | ⟨address, ho⟩ | rfl⟩
    · cases ho
    · cases ho
    · exact ⟨⟨commits, error, rfl⟩, hm⟩
  · rintro ⟨⟨commits, error, he⟩, hm⟩
    exact ⟨step.1, hm, commits, error, .inr (.inr (Prod.ext rfl he.symm))⟩

lemma Clear.not_landing {step : Call × Outcome} (h : Clear (FailsOnly step) failed) :
    ¬Landing (FailsOnly step) failed := by
  rintro ⟨call, hm, commits, error, ho | ⟨address, ho⟩ | rfl⟩
  · cases ho
  · cases ho
  · obtain ⟨error', ho | ⟨address, ho⟩ | he⟩ := h _ hm commits
    · cases ho
    · cases ho
    · cases (Prod.mk.inj he).2

/-- A delete of an Active peer in place, of which at most the call of one step fails, does what is
promised exactly when that call is not an nft batch or a statement that took effect. -/
theorem deletePeer_restores {step : Call × Outcome} (hk : Keys w.toTables)
    (found : w.rowOf? asn peerName = some peer) (active : peer.status = .active)
    (placed : InPlace cfg peer w) {r : Except PeerError Peer} (one : failed.length ≤ 1)
    (h : Runs cfg (FailsOnly step) w (deletePeer asn peerName) failed r w') :
    (Deleted cfg peer failed r w w' ∧ OthersKept cfg peer w w') ↔
      ¬(Landed step ∧ step.1 ∈ failed) := by
  rw [← landing_failsOnly]
  rcases deletePeer_runs hk found active placed one h with ⟨clear, kept⟩ | ⟨landing, spoilt⟩
  · exact iff_of_true kept clear.not_landing
  · exact iff_of_false (fun kept => spoilt kept.1) (not_not.mpr landing)

section Sample

lemma servedWorld_inPlace : InPlace sampleConfig (sampleRow 1 "a" .active) servedWorld := by
  refine ⟨⟨none, rfl, by decide, fun i hi _ => ?_⟩, by decide +kernel, by decide⟩
  obtain rfl := List.mem_singleton.mp hi
  exact ⟨by decide, rfl, rfl, by decide, rfl, by decide⟩

/-- BIRD rejects the configuration without the peer. -/
def rejectedReload : Call × Outcome :=
  (.io (.syncBirdFiles [marked (sampleRow 1 "a" .active), sampleRow 2 "b" .disabled] false),
    .birdFails (.restored true) (.birdReload "rejected"))

/-- nft applies the batch without the port, and the ten seconds are over before it has ended. -/
def lateBatch : Call × Outcome :=
  (.io (.runNftBatch []), .late (.nftables "nft did not finish within 10 seconds"))

/-- All other calls work. -/
def otherwise (step : Call × Outcome) (call : Call) : Outcome :=
  if call = step.1 then step.2 else .ok

lemma failsOnly_otherwise (step : Call × Outcome) (call : Call) :
    FailsOnly step call (otherwise step call) := by
  unfold otherwise
  split
  · rename_i he
    exact .inr (.inr (by rw [he]))
  · exact .inl rfl

lemma servedWorld_keys : Keys servedWorld.toTables := ⟨⟨by decide, by decide⟩, by decide⟩

lemma servedWorld_rowOf :
    servedWorld.rowOf? 4242421111 "a" = some (sampleRow 1 "a" .active) := by decide

/-- The calls before and after the rejected reload work, and the peer is in place again. -/
theorem deletePeer_restores_rejectedReload : ∃ r w',
    Runs sampleConfig (FailsOnly rejectedReload) servedWorld (deletePeer 4242421111 "a")
      [rejectedReload.1] r w' ∧
    r.isOk = false ∧ RowIs (sampleRow 1 "a" .active) servedWorld.toTables w'.toTables ∧
    InPlace sampleConfig (sampleRow 1 "a" .active) w' := by
  have run : ((trial (exec sampleConfig) refused (otherwise rejectedReload)
      (deletePeer 4242421111 "a").run servedWorld).map fun x => (x.1, x.2.1.isOk)) =
      some ([rejectedReload.1], false) := by
    decide +kernel
  obtain ⟨⟨failed, r, w'⟩, hrun, he⟩ := Option.map_eq_some_iff.mp run
  obtain ⟨rfl, herror⟩ := Prod.mk.inj he
  have h := trial_suffers (failsOnly_otherwise rejectedReload) hrun
  refine ⟨r, w', h, herror, ?_⟩
  have all := (deletePeer_restores servedWorld_keys servedWorld_rowOf rfl servedWorld_inPlace
    (by decide) h).mpr fun hl => hl.1.1
  cases r with
  | ok reply => cases herror
  | error error =>
    have deleted := all.1
    rw [Deleted, if_neg (by decide)] at deleted
    exact deleted

/-- The late batch is the only failing call: the delete reports an error and the row is Active again,
but the port stays shut. -/
theorem deletePeer_lateBatch : ∃ r w',
    Runs sampleConfig (FailsOnly lateBatch) servedWorld (deletePeer 4242421111 "a")
      [lateBatch.1] r w' ∧
    InPlace sampleConfig (sampleRow 1 "a" .active) servedWorld ∧
    r.isOk = false ∧ sampleRow 1 "a" .active ∈ w'.peers ∧
    ¬Deleted sampleConfig (sampleRow 1 "a" .active) [lateBatch.1] r servedWorld w' := by
  have run : ((trial (exec sampleConfig) refused (otherwise lateBatch)
      (deletePeer 4242421111 "a").run servedWorld).map fun x => (x.1, x.2.1.isOk,
        decide (sampleRow 1 "a" .active ∈ x.2.2.peers), decide ((20001 : UInt16) ∈ x.2.2.nft))) =
      some ([lateBatch.1], false, true, false) := by
    decide +kernel
  obtain ⟨⟨failed, r, w'⟩, hrun, he⟩ := Option.map_eq_some_iff.mp run
  simp only [Prod.mk.injEq, decide_eq_true_eq, decide_eq_false_iff_not] at he
  obtain ⟨rfl, herror, hrow, hport⟩ := he
  refine ⟨r, w', trial_suffers (failsOnly_otherwise lateBatch) hrun, servedWorld_inPlace, herror,
    hrow, fun deleted => ?_⟩
  cases r with
  | ok reply => cases herror
  | error error =>
    rw [Deleted, if_neg (by decide)] at deleted
    exact hport deleted.2.port

end Sample

end Autopeer.DeleteRestoration
