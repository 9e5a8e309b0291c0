import Autopeer.OperationEffects

/-! A create that fails after its reservation. At most one of its calls fails, or the last one finds
that another session has removed the row; the compensation takes everything back. -/
namespace Autopeer.CreateCompensation
open Ipv6 PeerData BirdGeneration Template ProgramTree RunFailures
open ManagerWorld ManagerPrograms ManagerSystem ManagerEffects TableIdentity
open InterfaceEffects Recovery OperationEffects
open ManagerFootprints (calls_io calls_return calls_throw calls_withLock calls_attempt_bind)

variable {cfg : Config} {P : Call → Outcome → Prop} {w w' : World} {failed : List Call}
  {asn : UInt32} {peerName : String} {p : Peer} {t u : Tables}

section Reservation
variable {peerAt : UInt16 → Peer}

/-- The tables with the row of `p` inserted. -/
def inserted (p : Peer) (t : Tables) : Tables := t.insertRow { p with status := .provisioning }

/-- The search for a port inserts one row without a conflict, or it changes nothing. -/
lemma reserveFrom_runs {increments : List ℕ} {r : Except PeerError Peer}
    (works : ∀ p, .io (.reservePeer p false) ∉ failed)
    (h : Runs cfg P w (reserveFrom asn peerName false peerAt increments) failed r w') :
    ((∃ error, r = .error error) ∧ w' = w) ∨
      ∃ port, r = .ok (peerAt port) ∧ w.conflicts (peerAt port) = false ∧
        w' = w.withTables (inserted (peerAt port) w.toTables) := by
  induction increments generalizing failed with
  | nil =>
    obtain ⟨-, rfl, rfl⟩ := suffers_done.mp h
    exact .inl ⟨⟨_, rfl⟩, rfl⟩
  | cons increment increments ih =>
    obtain ⟨a, w₁, first, second, hport, hrest, rfl⟩ := suffers_run_bind.mp h
    rcases io_runs hport with ⟨inUse, rfl, rfl, he⟩ | ⟨e, o, rfl, -, -, hx⟩
    swap
    · obtain rfl := exec_reads (c := .listenPortInUse _) trivial hx
      obtain ⟨-, rfl, rfl⟩ := suffers_done.mp hrest
      exact .inl ⟨⟨_, rfl⟩, rfl⟩
    obtain ⟨-, rfl⟩ := Prod.mk.inj he
    cases inUse with
    | true => exact ih (by simpa using works) hrest
    | false =>
      obtain ⟨a, w₂, first, third, hreserve, hlast, rfl⟩ := suffers_run_bind.mp hrest
      rcases io_runs hreserve with ⟨free, rfl, rfl, he⟩ | ⟨e, o, -, rfl, -, -⟩
      swap
      · exact absurd (by simp) (works (peerAt (searchPort asn increment)))
      simp only [effect] at he
      split at he
      · obtain ⟨hfree, rfl⟩ := Prod.mk.inj he
        cases hfree
        obtain ⟨a, w₃, first, fourth, htaken, hend, rfl⟩ := suffers_run_bind.mp hlast
        rcases io_runs htaken with ⟨taken, rfl, rfl, he⟩ | ⟨e, o, rfl, -, -, hx⟩
        swap
        · obtain rfl := exec_reads (c := .peerExists _ _) trivial hx
          obtain ⟨-, rfl, rfl⟩ := suffers_done.mp hend
          exact .inl ⟨⟨_, rfl⟩, rfl⟩
        obtain ⟨-, rfl⟩ := Prod.mk.inj he
        cases taken with
        | true =>
          obtain ⟨-, rfl, rfl⟩ := suffers_done.mp hend
          exact .inl ⟨⟨_, rfl⟩, rfl⟩
        | false => exact ih (by simpa using works) hend
      · rename_i hconf
        simp only [Bool.false_eq_true, ↓reduceIte] at he
        obtain ⟨hfree, rfl⟩ := Prod.mk.inj he
        cases hfree
        obtain ⟨-, rfl, rfl⟩ := suffers_done.mp hlast
        exact .inr ⟨_, rfl, by simpa using hconf, rfl⟩

/-- The sequence has moved on by at most one. -/
def Drawn (w w' : World) : Prop := w' = w ∨ w' = { w with peerSeq := w.peerSeq + 1 }

theorem reservePeer_runs {pubkey : WgPubKey} {endpoint : Option String}
    {linkLocal : Option (Ipv6Addr × Ipv6Addr)} {mtu : UInt16} (other : asn ≠ cfg.localAsn)
    {r : Except PeerError Peer} (works : ∀ p, .io (.reservePeer p false) ∉ failed)
    (h : Runs cfg P w (reservePeer cfg asn peerName pubkey endpoint linkLocal mtu) failed r w') :
    ((∃ error, r = .error error) ∧ Drawn w w') ∨
      ∃ p, r = .ok p ∧ p.peerId.toNat = w.peerSeq ∧ p.ifaceName = wgpName p.peerId ∧
        p.pair = (asn, peerName) ∧ p.status = .provisioning ∧ w.conflicts p = false ∧
        w' = w.withTables (inserted p { w.toTables with peerSeq := w.peerSeq + 1 }) := by
  obtain ⟨a, w₁, first, second, hid, hsearch, rfl⟩ := suffers_run_bind.mp h
  obtain ⟨b, w₂, third, fourth, hnext, hlast, rfl⟩ := suffers_run_bind.mp hid
  rcases io_runs hnext with ⟨n, rfl, rfl, he⟩ | ⟨e, o, rfl, -, -, hx⟩
  · simp only [effect] at he
    split at he
    swap
    · cases (Prod.mk.inj he).1
    rename_i hmax
    obtain ⟨hn, rfl⟩ := Prod.mk.inj he
    cases hn
    have small : w.peerSeq < 2 ^ 32 := lt_of_le_of_lt hmax (by decide)
    simp only [following_ok, small, ↓reduceIte] at hlast
    obtain ⟨rfl, rfl, rfl⟩ := suffers_done.mp hlast
    simp only [following_ok, other, decide_false] at hsearch
    rcases reserveFrom_runs (by simpa using works) hsearch with
      ⟨herror, rfl⟩ | ⟨port, rfl, hconf, rfl⟩
    · exact .inl ⟨herror, .inr rfl⟩
    · exact .inr ⟨_, rfl, UInt32.toNat_ofNat_of_lt (by simpa using small), rfl, rfl, rfl, hconf,
        rfl⟩
  · obtain ⟨-, rfl, rfl⟩ := suffers_done.mp hlast
    obtain ⟨-, rfl, rfl⟩ := suffers_done.mp hsearch
    refine .inl ⟨⟨e, rfl⟩, ?_⟩
    rcases exec_writes (c := .nextPeerId) trivial hx with rfl | ⟨-, rfl⟩
    · exact .inl rfl
    · rw [effect]
      split
      · exact .inr rfl
      · exact .inl rfl

end Reservation

section Compensation

/-- Whatever the compensation finds of the row of `p`. -/
def Tracked (p : Peer) (t u : Tables) : Prop :=
  (∃ status, RowIs { p with status } t u) ∨ RowGone p.peerId t u

/-- The row of `p` is not one that asks for files or ports. -/
def Silent (p : Peer) (t u : Tables) : Prop :=
  RowIs { p with status := .deleting } t u ∨ RowGone p.peerId t u

lemma Silent.mem (h : Silent p t u) {q : Peer} (he : q.enabled = true) :
    q ∈ u.peers ↔ q ∈ t.peers ∧ q.peerId ≠ p.peerId := by
  rcases h with h | h
  · rw [h.mem q]
    constructor
    · rintro (rfl | hq)
      · simp [Peer.enabled] at he
      · exact hq
    · exact .inr
  · exact h.mem q

/-- The mark, when its call works: from now on the row asks for nothing. -/
lemma mark_runs {r : Except PeerError Bool} (h : Tracked p t w.toTables)
    (hrun : Runs cfg P w (io (.setStatus p.peerId .deleting)) [] r w') :
    OnlyTables w w' ∧ Silent p t w'.toTables := by
  rcases h with ⟨status, h⟩ | h
  · obtain ⟨only, ⟨-, hrow⟩ | ⟨e, -, hne, -⟩⟩ := setStatus_runs h hrun rfl
    · exact ⟨only, .inl hrow⟩
    · cases hne
  · rcases io_runs hrun with ⟨v, -, -, he⟩ | ⟨e, o, -, hne, -⟩
    · have none : w.updateRow p.peerId (fun q => { q with status := PeerStatus.deleting.stored }) =
          (false, w.toTables) := h.update
      simp only [effect, none] at he
      obtain ⟨-, rfl⟩ := Prod.mk.inj he
      exact ⟨rfl, .inr h⟩
    · cases hne

lemma remove_runs {r : Except PeerError Bool} (h : Silent p t w.toTables)
    (hrun : Runs cfg P w (io (.deletePeer p.peerId)) [] r w') :
    OnlyTables w w' ∧ RowGone p.peerId t w'.toTables := by
  rcases h with h | h
  · rcases deletePeer_runs h hrun rfl with ⟨-, only, hgone⟩ | ⟨e, -, hne, -⟩
    · exact ⟨only, hgone⟩
    · cases hne
  · rcases io_runs hrun with ⟨v, -, -, he⟩ | ⟨e, o, -, hne, -⟩
    · have none : w.deleteRow p.peerId = (false, w.toTables) := h.delete
      simp only [effect, none] at he
      obtain ⟨-, rfl⟩ := Prod.mk.inj he
      exact ⟨rfl, h⟩
    · cases hne

/-- The compensation, when its calls work: no row, no interface, and the files and ports of the
table without the row. -/
theorem compensateFailedCreate_runs {r : Except PeerError Unit} (h : Tracked p t w.toTables)
    (hrun : Runs cfg P w (compensateFailedCreate p) [] r w') :
    r = .ok () ∧ RowGone p.peerId t w'.toTables ∧ w'.hasIface p.ifaceName = false ∧
      SameBut p.ifaceName w w' ∧
      (∃ u, Silent p t u ∧ w'.bird.content = rendering cfg.localAsn (u.listPeers cfg)) ∧
      w'.nft = nftPorts (w'.listPeers cfg) := by
  obtain ⟨a, w₁, first, second, hmark, hrest, hf⟩ := suffers_attempt_bind.mp hrun
  obtain ⟨rfl, rfl⟩ := List.append_eq_nil_iff.mp hf.symm
  obtain ⟨only₁, silent⟩ := mark_runs h hmark
  obtain ⟨b, w₂, first, second, hclear, hrest₂, hf⟩ := suffers_attempt_bind.mp hrest
  obtain ⟨rfl, rfl⟩ := List.append_eq_nil_iff.mp hf.symm
  obtain ⟨_, rfl⟩ := (strict_removeExternalState p).works hclear
  obtain ⟨around, done⟩ := removeExternalState_runs hclear
  obtain ⟨noIface, -, files⟩ := done rfl
  obtain ⟨c, w₃, first, second, hdel, hrest₃, hf⟩ := suffers_attempt_bind.mp hrest₂
  obtain ⟨rfl, rfl⟩ := List.append_eq_nil_iff.mp hf.symm
  have silent₂ : Silent p t w₂.toTables := by rw [around.tables]; exact silent
  obtain ⟨only₃, hgone⟩ := remove_runs silent₂ hdel
  obtain ⟨d, w₄, first, second, hnft, hend, hf⟩ := suffers_attempt_bind.mp hrest₃
  obtain ⟨rfl, rfl⟩ := List.append_eq_nil_iff.mp hf.symm
  obtain ⟨_, rfl⟩ := strict_syncNftPorts.works hnft
  obtain ⟨same, -, ports⟩ := syncNftPorts_runs hnft
  obtain ⟨-, rfl, rfl⟩ := suffers_done.mp hend
  have tables : w'.toTables = w₃.toTables := by rw [same]
  have ifaces : w'.ifaces = w₂.ifaces := by rw [same, only₃]; rfl
  have bird : w'.bird = w₂.bird := by rw [same, only₃]; rfl
  refine ⟨rfl, tables ▸ hgone, ?_, fun i hi => ?_, ⟨w₁.toTables, silent, ?_⟩, ?_⟩
  · rw [World.hasIface, ifaces]
    exact noIface
  · have before : w₁.ifaces = w.ifaces := by rw [only₁]; rfl
    rw [ifaces, around.ifaces i hi, before]
  · rw [bird, files]
  · rw [ports rfl, tables]

end Compensation

section Provision
variable {Q : Call → Option Outcome → Prop}

/-- The calls, and the case that another session removes a row just before it is set Active. -/
def withRemoval (cfg : Config) : Option Outcome → (e : Call) → World → Option (Answer e × World)
  | some o, e, w => exec cfg o e w
  | none, .io (.setStatus peerId .active), w =>
    exec cfg .ok (.io (.setStatus peerId .active)) (w.withTables (w.deleteRow peerId).2)
  | none, _, _ => none

/-- The answer is an error, or it reports that there was no row to set Active. -/
def unsuccessful : (e : Call) → Answer e → Bool
  | .io (.setStatus _ .active), .ok stored => !stored
  | e, r => refused e r

/-- As `Runs`, with the case that the row is removed by another session. -/
abbrev RunsBeside {α : Type} (cfg : Config) (Q : Call → Option Outcome → Prop) (w : World)
    (x : Manager α) (failed : List Call) (r : Except PeerError α) (w' : World) : Prop :=
  Suffers (withRemoval cfg) unsuccessful Q w x.run failed r w'

/-- The calls other than the last one of a create. -/
def Earlier : Call → Prop
  | .io (.setStatus _ .active) => False
  | _ => True

lemma withRemoval_none {e : Call} (he : Earlier e) : withRemoval cfg none e w = none := by
  cases e with
  | io c =>
    cases c with
    | setStatus peerId status => cases status <;> first | rfl | exact he.elim
    | _ => rfl
  | _ => rfl

/-- Up to the last call a create runs as if alone. -/
lemma RunsBeside.runs {α : Type} {x : Manager α} {r : Except PeerError α}
    (h : RunsBeside cfg Q w x failed r w') (hx : Calls Earlier x.run) :
    Runs cfg (fun e o => Q e (some o)) w x failed r w' := by
  refine Suffers.transfer h hx fun o e v r v' he hq hx => ?_
  cases o with
  | some o =>
    refine ⟨⟨o, hq, hx⟩, ?_⟩
    unfold unsuccessful
    split
    · exact he.elim
    · rfl
  | none =>
    rw [withRemoval_none he] at hx
    cases hx

lemma earlier_of_outside {e : Call} (h : Outside e) : Earlier e := by
  cases e with
  | io c => cases c <;> first | exact trivial | exact absurd trivial h
  | _ => exact trivial

lemma calls_compensateFailedCreate : Calls Earlier (compensateFailedCreate p).run := by
  refine calls_attempt_bind (calls_io trivial) fun _ => ?_
  refine calls_attempt_bind ((outside_removeExternalState p).mono fun _ => earlier_of_outside)
    fun r => ?_
  have last := outside_syncNftPorts.mono fun _ => earlier_of_outside
  cases r with
  | ok _ =>
    refine calls_attempt_bind (calls_io trivial) fun _ => ?_
    exact calls_attempt_bind last fun _ => calls_return _
  | error _ => exact calls_attempt_bind last fun _ => calls_return _

/-- The last call sets the row Active, or it was not successful and the row is still tracked. -/
lemma activate_runs {r : Except PeerError Bool} (h : RowIs p t w.toTables)
    (hrun : RunsBeside cfg Q w (io (.setStatus p.peerId .active)) failed r w') :
    r = .ok true ∨ (failed ≠ [] ∧ OnlyTables w w' ∧ Tracked p t w'.toTables) := by
  obtain ⟨o, a, v, rest, -, hx, hd, rfl⟩ := suffers_call.mp hrun
  obtain ⟨rfl, rfl, rfl⟩ := suffers_done.mp hd
  cases o with
  | some o =>
    have alone : Runs cfg (fun _ _ => True) w (io (.setStatus p.peerId .active)) _ r w' :=
      Suffers.call (e := Call.io (.setStatus p.peerId .active)) o trivial hx (.done _ _)
    obtain ⟨only, ⟨rfl, -⟩ | ⟨e, rfl, -, hrow, -⟩⟩ := setStatus_runs h alone rfl
    · exact .inl rfl
    · refine .inr ⟨by simp [unsuccessful, refused, Except.isOk, Except.toBool], only, .inl ?_⟩
      rcases hrow with hrow | hrow
      · exact ⟨p.status, hrow⟩
      · exact ⟨_, hrow⟩
  | none =>
    rcases deleteRow_cases w.toTables p.peerId with ⟨hn, -⟩ | ⟨q, hq, hu⟩
    · rw [h.row?] at hn
      cases hn
    · have gone : RowGone p.peerId t (w.deleteRow p.peerId).2 := by
        rw [hu]
        exact h.remove
      have none : (w.deleteRow p.peerId).2.updateRow p.peerId
          (fun row => { row with status := PeerStatus.active.stored }) =
            (false, (w.deleteRow p.peerId).2) := gone.update
      simp only [withRemoval, exec, effect, Option.some.injEq, World.withTables, none] at hx
      obtain ⟨rfl, rfl⟩ := Prod.mk.inj hx
      exact .inr ⟨by simp [unsuccessful], rfl, .inr gone⟩

/-- What a failed create leaves of the peer that it had reserved. -/
structure TakenBack (cfg : Config) (p : Peer) (t : Tables) (w w' : World) : Prop where
  row : RowGone p.peerId t w'.toTables
  iface : w'.hasIface p.ifaceName = false
  others : SameBut p.ifaceName w w'
  files : ∃ u, Silent p t u ∧ w'.bird.content = rendering cfg.localAsn (u.listPeers cfg)
  ports : w'.nft = nftPorts (w'.listPeers cfg)

lemma takeBack_runs {error : PeerError} {r : Except PeerError Peer} (h : Tracked p t w.toTables)
    (hrun : RunsBeside cfg Q w (do compensateFailedCreate p; throw error : Manager Peer) [] r w') :
    TakenBack cfg p t w w' := by
  obtain ⟨a, v, first, second, hcomp, hend, hf⟩ := suffers_run_bind.mp hrun
  obtain ⟨rfl, rfl⟩ := List.append_eq_nil_iff.mp hf.symm
  obtain ⟨rfl, row, iface, others, files, ports⟩ :=
    compensateFailedCreate_runs h (RunsBeside.runs hcomp calls_compensateFailedCreate)
  obtain ⟨-, rfl, rfl⟩ := suffers_done.mp hend
  exact ⟨row, iface, others, files, ports⟩

lemma TakenBack.after {v : World} (hv : SameBut p.ifaceName w v) (h : TakenBack cfg p t v w') :
    TakenBack cfg p t w w' :=
  ⟨h.row, h.iface, fun i hi => (h.others i hi).trans (hv i hi), h.files, h.ports⟩

/-- The first part of a run has failed, so nothing fails in the second. -/
lemma rest_works {α : Type} {first second : List α} (one : (first ++ second).length ≤ 1)
    (h : first ≠ []) : second = [] := by
  have := List.length_pos_iff.mpr h
  rw [List.length_append] at one
  exact List.length_eq_zero_iff.mp (by omega)

theorem provision_runs {error : PeerError} (h : RowIs p t w.toTables) (one : failed.length ≤ 1)
    (hrun : RunsBeside cfg Q w (provision asn p) failed (.error error) w') :
    TakenBack cfg p t w w' := by
  obtain ⟨a, w₁, first, second, happly, hrest, rfl⟩ := suffers_attempt_bind.mp hrun
  have happly := RunsBeside.runs happly ((outside_applyPeer p).mono fun _ => earlier_of_outside)
  obtain ⟨around, -⟩ := applyPeer_runs happly
  have row₁ : RowIs p t w₁.toTables := by rw [around.tables]; exact h
  cases a with
  | error e =>
    obtain rfl := rest_works one ((strict_applyPeer p).error happly)
    exact (takeBack_runs (.inl ⟨p.status, row₁⟩) hrest).after around.ifaces
  | ok _ =>
    obtain rfl := (strict_applyPeer p).ok happly
    rw [List.nil_append] at one
    obtain ⟨b, w₂, third, fourth, hnft, hlast, rfl⟩ := suffers_attempt_bind.mp hrest
    have hnft := RunsBeside.runs hnft (outside_syncNftPorts.mono fun _ => earlier_of_outside)
    obtain ⟨same, -, -⟩ := syncNftPorts_runs hnft
    have row₂ : RowIs p t w₂.toTables := by rw [same]; exact row₁
    have others : SameBut p.ifaceName w w₂ := fun i hi => by
      rw [same]
      exact around.ifaces i hi
    cases b with
    | error e =>
      obtain rfl := rest_works one (strict_syncNftPorts.error hnft)
      exact (takeBack_runs (.inl ⟨p.status, row₂⟩) hlast).after others
    | ok _ =>
      obtain rfl := strict_syncNftPorts.ok hnft
      rw [List.nil_append] at one
      obtain ⟨c, w₃, fifth, sixth, hset, hend, rfl⟩ := suffers_attempt_bind.mp hlast
      rcases activate_runs row₂ hset with rfl | ⟨hne, only, tracked⟩
      · obtain ⟨-, hr, -⟩ := suffers_done.mp hend
        cases hr
      · obtain rfl := rest_works one hne
        have others₃ : SameBut p.ifaceName w w₃ := fun i hi => by
          rw [only]
          exact others i hi
        match c, hend with
        | .ok true, hend =>
          obtain ⟨-, hr, -⟩ := suffers_done.mp hend
          cases hr
        | .ok false, hend => exact (takeBack_runs tracked hend).after others₃
        | .error e, hend => exact (takeBack_runs tracked hend).after others₃

end Provision

section Create
variable {Q : Call → Option Outcome → Prop}

/-- Interfaces, files and ports agree with the table. -/
structure Agrees (cfg : Config) (w : World) : Prop where
  ifaces : ∀ r ∈ w.peers, r.enabled → Configured r w
  noOthers : ∀ peerId, (∀ r ∈ w.peers, r.peerId = peerId → r.enabled = false) →
    w.hasIface (wgpName peerId) = false
  files : w.bird.content = rendering cfg.localAsn (w.listPeers cfg)
  ports : w.nft = nftPorts (w.listPeers cfg)

/-- Rows, interfaces, files and ports are as before. -/
structure NothingLeft (w w' : World) : Prop where
  rows : ∀ q, q ∈ w'.peers ↔ q ∈ w.peers
  ifaces : ∀ i, i ∈ w'.ifaces ↔ i ∈ w.ifaces
  files : w'.bird.content = w.bird.content
  ports : ∀ port, port ∈ w'.nft ↔ port ∈ w.nft

/-- Nothing of the reserved peer is there. -/
structure Absent (p : Peer) (w : World) : Prop where
  row : ∀ q ∈ w.peers, q.peerId ≠ p.peerId
  iface : w.hasIface (wgpName p.peerId) = false
  file : w.bird.content[wgpName p.peerId ++ ".conf"]? = none
  port : p.listenPort ∉ w.nft

lemma inserted_peers (hp : p.status = .provisioning) : (inserted p t).peers = t.peers ++ [p] := by
  have same : ({ p with status := .provisioning } : Peer) = p := by rw [← hp]
  simp [inserted, Tables.insertRow, same]

lemma inserted_born (hp : p.status = .provisioning) : (inserted p t).born = t.born ++ [p] := by
  have same : ({ p with status := .provisioning } : Peer) = p := by rw [← hp]
  simp [inserted, Tables.insertRow, same]

lemma Keys.inserted (hk : Keys t) (hp : p.status = .provisioning) (free : t.conflicts p = false)
    (hn : p.ifaceName = wgpName p.peerId) : Keys (inserted p t) := by
  have other := conflicts_false.mp free
  refine ⟨⟨?_, fun q hq => ?_⟩, fun a ha b hb he => ?_⟩
  · rw [inserted_peers hp, List.map_append]
    refine hk.own.ids.append (List.nodup_singleton _) ?_
    intro id hid hid'
    obtain ⟨q, hq, rfl⟩ := List.mem_map.mp hid
    exact (other q hq).1 (by simpa using hid')
  · rw [inserted_peers hp, List.mem_append, List.mem_singleton] at hq
    rcases hq with hq | rfl
    · exact hk.own.names q hq
    · exact hn
  · rw [inserted_peers hp, List.mem_append, List.mem_singleton] at ha hb
    rcases ha with ha | rfl <;> rcases hb with hb | rfl
    · exact hk.ports a ha b hb he
    · exact absurd he (other a ha).2.2
    · exact absurd he.symm (other b hb).2.2
    · rfl

/-- Without the row of `p` the table is the one before the reservation. -/
lemma gone_inserted (hp : p.status = .provisioning) (free : t.conflicts p = false) (q : Peer) :
    q ∈ (inserted p t).peers ∧ q.peerId ≠ p.peerId ↔ q ∈ t.peers := by
  rw [inserted_peers hp, List.mem_append, List.mem_singleton]
  constructor
  · rintro ⟨hq | rfl, hne⟩
    · exact hq
    · exact absurd rfl hne
  · exact fun hq => ⟨.inl hq, (conflicts_false.mp free q hq).1⟩

lemma TakenBack.nothingLeft (hk : Keys w.toTables) (agrees : Agrees cfg w) {v : World}
    (hp : p.status = .provisioning) (hn : p.ifaceName = wgpName p.peerId)
    (free : w.conflicts p = false) (h : TakenBack cfg p t v w')
    (ht : t.peers = (inserted p w.toTables).peers) (hi : v.ifaces = w.ifaces) :
    NothingLeft w w' ∧ Absent p w' := by
  have rows : ∀ q, q ∈ w'.peers ↔ q ∈ w.peers := fun q => by
    rw [h.row.mem q, ht, gone_inserted hp free]
  have others : ∀ q ∈ w.peers, q.peerId ≠ p.peerId := fun q hq => (conflicts_false.mp free q hq).1
  have noIface : w.hasIface p.ifaceName = false := by
    rw [hn]
    exact agrees.noOthers _ fun r hr hid => absurd hid (others r hr)
  have names : ∀ {x : World}, x.hasIface p.ifaceName = false → ∀ i ∈ x.ifaces,
      i.name ≠ p.ifaceName := fun hx i hi he => by
    rw [hasIface_iff.mpr ⟨i, hi, he⟩] at hx
    cases hx
  have hk' : Keys w'.toTables :=
    ⟨⟨h.row.ids, fun q hq => hk.own.names q ((rows q).mp hq)⟩,
      fun a ha b hb => hk.ports a ((rows a).mp ha) b ((rows b).mp hb)⟩
  have files : w'.bird.content = w.bird.content := by
    obtain ⟨u, silent, hu⟩ := h.files
    have hku : Keys u := by
      have hkt : Keys t := by
        have := Keys.inserted hk hp free hn
        exact ⟨by rw [ht]; exact this.own, by rw [ht]; exact this.ports⟩
      have own : p ∈ t.peers := by
        rw [ht, inserted_peers hp]
        exact List.mem_append_right _ (List.mem_singleton_self p)
      rcases silent with hr | hg
      · refine hkt.rowIs own ?_ hr
        rfl
      · exact hkt.rowGone hg
    rw [hu, agrees.files]
    refine rendering_congr (listPeers_distinct hku.own) (listPeers_distinct hk.own)
      fun name content => exists_congr fun q => ?_
    rw [mem_listPeers, mem_listPeers]
    constructor
    · rintro ⟨hq, he, rest⟩
      rw [silent.mem he, ht, gone_inserted hp free] at hq
      exact ⟨hq, he, rest⟩
    · rintro ⟨hq, he, rest⟩
      refine ⟨?_, he, rest⟩
      rwa [silent.mem he, ht, gone_inserted hp free]
  have ports : ∀ port, port ∈ w'.nft ↔ port ∈ w.nft := fun port => by
    rw [h.ports, agrees.ports, mem_nftPorts, mem_nftPorts]
    simp only [mem_listPeers, rows]
  refine ⟨⟨rows, fun i => ?_, files, ports⟩, ⟨fun q hq => others q ((rows q).mp hq), ?_, ?_, ?_⟩⟩
  · by_cases hname : i.name = p.ifaceName
    · exact iff_of_false (fun hm => names h.iface i hm hname) fun hm => names noIface i hm hname
    · rw [h.others i hname, hi]
  · rw [← hn]
    exact h.iface
  · have none := @rendering_absent cfg _ _ hk.own hn others
    rw [confName, hn] at none
    rw [files, agrees.files, none]
  · rw [ports, agrees.ports, mem_nftPorts]
    rintro ⟨q, hq, -, hport⟩
    exact (conflicts_false.mp free q (mem_listPeers.mp hq)).2.2 hport

lemma withRemoval_lock {o : Option Outcome} {l : Lock} {r : Unit}
    (h : withRemoval cfg o (.lock l) w = some (r, w')) : w' = { w with locks := l :: w.locks } := by
  cases o with
  | none => cases h
  | some o => exact exec_lock h

lemma withRemoval_unlock {o : Option Outcome} {l : Lock} {r : Unit}
    (h : withRemoval cfg o (.unlock l) w = some (r, w')) :
    w' = { w with locks := w.locks.erase l } := by
  cases o with
  | none => cases h
  | some o => exact exec_unlock h

lemma withLock_beside {α : Type} {l : Lock} {body : Manager α} {r : Except PeerError α}
    (h : RunsBeside cfg Q w (withLock l body) failed r w') :
    ∃ v, RunsBeside cfg Q { w with locks := l :: w.locks } body failed r v ∧
      w' = { v with locks := v.locks.erase l } :=
  withLock_suffers (fun _ _ _ _ _ => withRemoval_lock) (fun _ _ _ _ _ => withRemoval_unlock)
    (fun _ _ => ⟨rfl, rfl⟩) h

lemma calls_reservePeer {pubkey : WgPubKey} {endpoint : Option String}
    {linkLocal : Option (Ipv6Addr × Ipv6Addr)} {mtu : UInt16} :
    Calls Earlier (reservePeer cfg asn peerName pubkey endpoint linkLocal mtu).run := by
  unfold reservePeer
  generalize List.range 10000 = increments
  refine Calls.run_bind (Calls.run_bind (calls_io trivial) fun n => ?_) fun _ =>
    ManagerFootprints.calls_reserveFrom ⟨trivial, fun _ => trivial⟩ fun _ => trivial
  split
  · exact calls_return _
  · exact calls_throw _

lemma provision_born {r : Except PeerError Peer}
    (h : RunsBeside cfg Q w (provision asn p) failed r w') : w'.born = w.born := by
  have calls := ManagerFootprints.calls_provision (p := p) (W := fun _ => False) asn
  refine Suffers.rel (I := fun v v' => v'.born = v.born) h calls (fun _ => rfl)
    (fun u v x (huv : v.born = u.born) (hvx : x.born = v.born) => hvx.trans huv)
    fun o e v r v' he _ hx => ?_
  cases o with
  | some o => exact exec_born_eq hx fun p test h => by subst h; exact he
  | none =>
    cases e with
    | io c =>
      cases c with
      | setStatus peerId status =>
        cases status with
        | active =>
          simp only [withRemoval, exec, Option.some.injEq] at hx
          have born := @effect_born_eq cfg (.setStatus peerId .active)
            (v.withTables (v.deleteRow peerId).2) (by simp)
          rw [hx] at born
          exact born.trans deleteRow_born
        | _ => cases hx
      | _ => cases hx
    | _ => cases hx

/-- A create that fails after its reservation, at whatever single point, leaves nothing behind. -/
theorem createPeer_nothingLeft (hk : Keys w.toTables) (agrees : Agrees cfg w)
    (other : asn ≠ cfg.localAsn) {pubkey : WgPubKey} {endpoint : Option String}
    {linkLocal : Option (Ipv6Addr × Ipv6Addr)} {mtu : Option UInt16} {error : PeerError}
    (one : failed.length ≤ 1) (reserves : ∀ p, .io (.reservePeer p false) ∉ failed)
    (h : RunsBeside cfg Q w (createPeer cfg asn peerName pubkey endpoint linkLocal mtu) failed
      (.error error) w') :
    NothingLeft w w' ∧ (w'.born = w.born ∨ ∃ p, w'.born = w.born ++ [p] ∧
      p.peerId.toNat = w.peerSeq ∧ Absent p w') := by
  have same : ∀ {v : World}, v.peers = w.peers → v.born = w.born → v.ifaces = w.ifaces →
      v.bird = w.bird → v.nft = w.nft → NothingLeft w v ∧ (v.born = w.born ∨ ∃ p,
        v.born = w.born ++ [p] ∧ p.peerId.toNat = w.peerSeq ∧ Absent p v) :=
    fun h₁ h₂ h₃ h₄ h₅ =>
      ⟨⟨fun _ => by rw [h₁], fun _ => by rw [h₃], by rw [h₄], fun _ => by rw [h₅]⟩, .inl h₂⟩
  obtain ⟨v, hbody, rfl⟩ := withLock_beside h
  obtain ⟨a, w₁, first, second, hexists, hrest, rfl⟩ := suffers_run_bind.mp hbody
  rcases io_runs (RunsBeside.runs hexists (calls_io trivial)) with
    ⟨taken, rfl, rfl, he⟩ | ⟨e, o, rfl, -, -, hx⟩
  swap
  · obtain rfl := exec_reads (c := .peerExists _ _) trivial hx
    obtain ⟨-, -, rfl⟩ := suffers_done.mp hrest
    exact same rfl rfl rfl rfl rfl
  obtain ⟨-, rfl⟩ := Prod.mk.inj he
  cases taken with
  | true =>
    obtain ⟨-, -, rfl⟩ := suffers_done.mp hrest
    exact same rfl rfl rfl rfl rfl
  | false =>
    obtain ⟨b, w₂, third, fourth, hlock, hlast, rfl⟩ := suffers_run_bind.mp hrest
    obtain ⟨u, hreserve, rfl⟩ := withLock_beside hlock
    have hreserve := RunsBeside.runs hreserve calls_reservePeer
    rcases reservePeer_runs other (fun p hp => reserves p (by simp [hp])) hreserve with
      ⟨⟨e, rfl⟩, rfl | rfl⟩ | ⟨p, rfl, hseq, hn, -, hp, free, rfl⟩
    · obtain ⟨-, -, rfl⟩ := suffers_done.mp hlast
      exact same rfl rfl rfl rfl rfl
    · obtain ⟨-, -, rfl⟩ := suffers_done.mp hlast
      exact same rfl rfl rfl rfl rfl
    · rw [following_ok, if_neg other] at hlast
      have hk' := Keys.inserted hk hp free hn
      have own : p ∈ (inserted p w.toTables).peers := by
        rw [inserted_peers hp]
        exact List.mem_append_right _ (List.mem_singleton_self p)
      have row : RowIs p (inserted p { w.toTables with peerSeq := w.peerSeq + 1 })
          (inserted p { w.toTables with peerSeq := w.peerSeq + 1 }) := .of_mem hk'.own.ids own
      have born := provision_born hlast
      have back := provision_runs row (one.trans' (by simp)) hlast
      obtain ⟨left, absent⟩ := TakenBack.nothingLeft hk agrees hp hn free back rfl rfl
      refine ⟨⟨left.rows, left.ifaces, left.files, left.ports⟩, .inr ⟨p, ?_, hseq, ?_⟩⟩
      · exact born.trans (inserted_born hp)
      · exact ⟨absent.row, absent.iface, absent.file, absent.port⟩

end Create

section Sample

lemma servedWorld_agrees : Agrees sampleConfig servedWorld where
  ifaces := fun r hr he => by
    have hr : r = sampleRow 1 "a" .active ∨ r = sampleRow 2 "b" .disabled := by
      simpa [servedWorld] using hr
    rcases hr with rfl | rfl
    · refine ⟨none, rfl, by decide, fun i hi _ => ?_⟩
      obtain rfl := List.mem_singleton.mp hi
      exact ⟨by decide, rfl, rfl, by decide, rfl, by decide⟩
    · exact absurd he (by decide)
  noOthers := fun peerId h => by
    rw [World.hasIface, List.any_eq_false]
    intro i hi hname
    obtain rfl := List.mem_singleton.mp hi
    have first : wgpName 1 = "wgp1" := by decide
    have hid : 1 = peerId := wgpName_injective (first.trans (by simpa using hname))
    exact absurd (h (sampleRow 1 "a" .active) (by decide) hid) (by decide)
  files := by decide +kernel
  ports := by decide

def sampleCreate : Manager Peer :=
  createPeer sampleConfig 4242421112 "c" ⟨"key"⟩ none none none

/-- The row that was reserved is deleted by another session before it is set Active. -/
theorem createPeer_nothingLeft_removed : ∃ error w',
    RunsBeside sampleConfig (fun _ _ => True) servedWorld sampleCreate
      [.io (.setStatus 3 .active)] (.error error) w' ∧ w'.born.length = 3 ∧
    NothingLeft servedWorld w' ∧ (w'.born = servedWorld.born ∨ ∃ p,
      w'.born = servedWorld.born ++ [p] ∧ p.peerId.toNat = 3 ∧ Absent p w') := by
  have run : ((trial (withRemoval sampleConfig) unsuccessful (fun call =>
      if call = .io (.setStatus 3 .active) then none else some .ok) sampleCreate.run
      servedWorld).map fun x => (x.1, x.2.1.isOk, x.2.2.born.length)) =
      some ([.io (.setStatus 3 .active)], false, 3) := by
    decide +kernel
  obtain ⟨⟨failed, r, w'⟩, hrun, he⟩ := Option.map_eq_some_iff.mp run
  simp only [Prod.mk.injEq] at he
  obtain ⟨rfl, herror, hborn⟩ := he
  have h := trial_suffers (P := fun _ _ => True) (fun _ => trivial) hrun
  cases r with
  | ok reply => cases herror
  | error error =>
    refine ⟨error, w', h, hborn, ?_⟩
    exact createPeer_nothingLeft ⟨⟨by decide, by decide⟩, by decide⟩ servedWorld_agrees
      (by decide) (by decide) (by simp) h

end Sample

end Autopeer.CreateCompensation
