import Autopeer.OperationEffects
import Autopeer.TableIdentity

/-! An update with at most one failing call: it stores everything that was requested or it restores
the row, unless the call that fails is the last one, which sets the row Active. -/
namespace Autopeer.UpdateAtomicity
open Ipv6 PeerData ProgramTree RunFailures ManagerWorld ManagerPrograms ManagerSystem
open ManagerEffects InterfaceEffects TableIdentity Recovery OperationEffects

variable {cfg : Config} {P : Call → Outcome → Prop} {w w' : World} {failed : List Call}
  {asn : UInt32} {peerName : String} {pubkey : WgPubKey} {endpoint : Option (Option String)}
  {linkLocal : Option (Ipv6Addr × Ipv6Addr)} {mtu : Option (Option UInt16)} {old : Peer} {t : Tables}

/-- The row has what the request asks for; what the request leaves out is as in the old row. -/
structure Requested (cfg : Config) (asn : UInt32) (pubkey : WgPubKey)
    (endpoint : Option (Option String)) (linkLocal : Option (Ipv6Addr × Ipv6Addr))
    (mtu : Option (Option UInt16)) (old row : Peer) : Prop where
  pubkey : row.pubkey = pubkey
  endpoint : row.endpoint =
    match endpoint with
    | none => old.endpoint
    | some none => none
    | some (some text) => some text
  addresses : (row.localLlIp, row.remoteLlIp) =
    match linkLocal with
    | none => (asnLinkLocal cfg.localAsn, asnLinkLocal asn)
    | some pair => pair
  mtu : row.mtu =
    match mtu with
    | none => old.mtu
    | some none => 1420
    | some (some value) => value
  status : row.status = .active

/-- After an update that ended with `r` the row is as requested or as before; it keeps its identity
and the other rows are the same. -/
def AllOrNothing (cfg : Config) (asn : UInt32) (pubkey : WgPubKey)
    (endpoint : Option (Option String)) (linkLocal : Option (Ipv6Addr × Ipv6Addr))
    (mtu : Option (Option UInt16)) (old : Peer) (r : Except PeerError Peer) (w w' : World) : Prop :=
  ∃ row, RowIs row w.toTables w'.toTables ∧ identity row = identity old ∧
    match r with
    | .ok _ => Requested cfg asn pubkey endpoint linkLocal mtu old row
    | .error _ => row = old

lemma desiredColumns_stored : desiredColumns
    (desiredPeer cfg asn pubkey endpoint linkLocal mtu old) old =
      desiredPeer cfg asn pubkey endpoint linkLocal mtu old := rfl

/-- Storing the old row again restores all but its status. -/
lemma desiredColumns_restored :
    desiredColumns old (desiredPeer cfg asn pubkey endpoint linkLocal mtu old) =
      { old with status := .provisioning } := rfl

lemma requested_active : Requested cfg asn pubkey endpoint linkLocal mtu old
    { desiredPeer cfg asn pubkey endpoint linkLocal mtu old with status := .active } where
  pubkey := rfl
  endpoint := by rcases endpoint with _ | _ | text <;> rfl
  addresses := by cases linkLocal <;> rfl
  mtu := by rcases mtu with _ | _ | value <;> rfl
  status := rfl

/-- The compensation, when its calls work, stores the old row again and sets it Active. -/
lemma compensateFailedUpdate_runs (clean : Clean P)
    (hrow : RowIs (desiredPeer cfg asn pubkey endpoint linkLocal mtu old) t w.toTables)
    {r : Except PeerError Unit} (h : Runs cfg P w (compensateFailedUpdate old) [] r w') :
    r = .ok () ∧ RowIs { old with status := .active } t w'.toTables := by
  obtain ⟨a, w₁, first, second, hstore, h, hf⟩ := suffers_attempt_bind.mp h
  obtain ⟨rfl, rfl⟩ := List.append_eq_nil_iff.mp hf.symm
  rcases updatePeerDesired_runs clean hrow hstore rfl with ⟨rfl, -, -, hrow₁⟩ | ⟨e, -, hne, -⟩
  swap
  · cases hne
  rw [desiredColumns_restored] at hrow₁
  obtain ⟨b, w₂, first, second, happly, h, hf⟩ := suffers_attempt_bind.mp h
  obtain ⟨rfl, rfl⟩ := List.append_eq_nil_iff.mp hf.symm
  obtain ⟨_, rfl⟩ := (strict_applyPeer old).works happly
  rw [← (applyPeer_runs happly).1.tables] at hrow₁
  obtain ⟨c, w₃, first, second, hset, h, hf⟩ := suffers_attempt_bind.mp h
  obtain ⟨rfl, rfl⟩ := List.append_eq_nil_iff.mp hf.symm
  obtain ⟨-, rfl, rfl⟩ := suffers_done.mp h
  obtain ⟨-, ⟨-, hrow₂⟩ | ⟨e, -, hne, -⟩⟩ := setStatus_runs hrow₁ hset rfl
  · exact ⟨rfl, hrow₂⟩
  · cases hne

/-- How an update with at most one failing call ends. -/
inductive Updated (desired old : Peer) (t : Tables) :
    List Call → Except PeerError Peer → World → Prop
  | stored {failed : List Call} {reply : Peer} {w' : World}
      (last : .io (.setStatus old.peerId .active) ∉ failed)
      (row : RowIs { desired with status := .active } t w'.toTables)
      (iface : Configured desired w') : Updated desired old t failed (.ok reply) w'
  | kept {failed : List Call} {error : PeerError} {w' : World}
      (last : .io (.setStatus old.peerId .active) ∉ failed) (row : RowIs old t w'.toTables) :
      Updated desired old t failed (.error error) w'
  | restored {failed : List Call} {error : PeerError} {w' : World}
      (last : .io (.setStatus old.peerId .active) ∉ failed)
      (row : RowIs { old with status := .active } t w'.toTables) :
      Updated desired old t failed (.error error) w'
  | stranded {failed : List Call} {error : PeerError} {w' : World}
      (last : .io (.setStatus old.peerId .active) ∈ failed) (row : RowIs desired t w'.toTables)
      (iface : Configured desired w') : Updated desired old t failed (.error error) w'

/-- The second half of an update, from the stored row. -/
theorem reprovision_runs (clean : Clean P)
    (hrow : RowIs (desiredPeer cfg asn pubkey endpoint linkLocal mtu old) t w.toTables)
    {r : Except PeerError Peer} (one : failed.length ≤ 1)
    (h : Runs cfg P w (reprovision asn peerName old
      (desiredPeer cfg asn pubkey endpoint linkLocal mtu old)) failed r w') :
    Updated (desiredPeer cfg asn pubkey endpoint linkLocal mtu old) old t failed r w' := by
  obtain ⟨a, w₁, first, second, happly, hrest, rfl⟩ := suffers_attempt_bind.mp h
  obtain ⟨around, done⟩ := applyPeer_runs happly
  rw [← around.tables] at hrow
  cases a with
  | error e =>
    -- One call of `apply_peer` has failed, so all calls of the compensation work.
    have hfirst : first ≠ [] := (strict_applyPeer _).error happly
    obtain rfl : second = [] := by
      have := List.length_pos_iff.mpr hfirst
      simp only [List.length_append] at one
      exact List.length_eq_zero_iff.mp (by omega)
    obtain ⟨b, w₂, first', second', hcomp, hend, hf⟩ := suffers_run_bind.mp hrest
    obtain ⟨rfl, rfl⟩ := List.append_eq_nil_iff.mp hf.symm
    obtain ⟨rfl, hold⟩ := compensateFailedUpdate_runs clean hrow hcomp
    obtain ⟨-, rfl, rfl⟩ := suffers_done.mp hend
    refine .restored (fun hm => ?_) hold
    have touched := happly.calls (outside_applyPeer _) _ (by simpa using hm)
    exact touched trivial
  | ok _ =>
    obtain rfl : first = [] := (strict_applyPeer _).ok happly
    obtain ⟨b, w₂, first, second', hset, hend, rfl⟩ := suffers_run_bind.mp hrest
    obtain ⟨only, ⟨rfl, hrow'⟩ | ⟨e, rfl, rfl, -, unchanged⟩⟩ := setStatus_runs hrow hset rfl
    · obtain rfl : first = [] := (strict_io _).ok hset
      obtain ⟨rfl, rfl, rfl⟩ := suffers_done.mp hend
      refine .stored (by simp) hrow' (Configured.ifaces_eq (done rfl).1 ?_)
      rw [only]
      rfl
    · obtain rfl := unchanged clean
      obtain ⟨rfl, rfl, rfl⟩ := suffers_done.mp hend
      exact .stranded (List.mem_singleton_self _) hrow (done rfl).1

/-- An update of a row that is not Deleting, with at most one failing call. -/
theorem updatePeer_runs (clean : Clean P) (ids : (w.peers.map Peer.peerId).Nodup)
    (found : w.rowOf? asn peerName = some old) (standing : old.status ≠ .deleting)
    {r : Except PeerError Peer} (one : failed.length ≤ 1)
    (h : Runs cfg P w (updatePeer cfg asn peerName pubkey endpoint linkLocal mtu) failed r w') :
    Updated (desiredPeer cfg asn pubkey endpoint linkLocal mtu old) old w.toTables failed r w' := by
  have start : RowIs old w.toTables w.toTables := .of_mem ids (rowOf?_some found).1
  obtain ⟨v, hbody, rfl⟩ := withLock_runs h
  obtain ⟨a, w₁, first, second, hget, hrest, rfl⟩ := suffers_run_bind.mp hbody
  rcases io_runs hget with ⟨row, rfl, rfl, he⟩ | ⟨e, o, rfl, rfl, -, hx⟩
  swap
  · obtain rfl := exec_reads (c := .getPeer _ _) trivial hx
    obtain ⟨rfl, rfl, rfl⟩ := suffers_done.mp hrest
    exact .kept (by simp) start
  obtain ⟨hrow, rfl⟩ := Prod.mk.inj he
  obtain rfl : some old = row := found ▸ Except.ok.inj hrow
  obtain ⟨a, w₂, first, second, hfound, hstored, rfl⟩ := suffers_run_bind.mp hrest
  obtain ⟨rfl, rfl, rfl⟩ := suffers_done.mp hfound
  rw [following_ok, if_neg standing] at hstored
  obtain ⟨a, w₃, first, second, hstore, hwork, rfl⟩ := suffers_run_bind.mp hstored
  have locked : RowIs old w.toTables
      { w with locks := .peer asn peerName :: w.locks }.toTables := start
  rcases updatePeerDesired_runs clean locked hstore rfl with
    ⟨rfl, rfl, -, hrow⟩ | ⟨e, rfl, rfl, rfl⟩
  · rw [desiredColumns_stored] at hrow
    cases reprovision_runs clean hrow (by simpa using one) hwork with
    | stored last row iface => exact .stored (by simpa using last) row (Configured.ifaces_eq iface rfl)
    | kept last row => exact .kept (by simpa using last) row
    | restored last row => exact .restored (by simpa using last) row
    | stranded last row iface => exact .stranded (by simpa using last) row (Configured.ifaces_eq iface rfl)
  · obtain ⟨rfl, rfl, rfl⟩ := suffers_done.mp hwork
    exact .kept (by simp) start

/-- An update of an Active row with at most one failing call is all or nothing exactly when the
failing call is not the one that sets the row Active again. -/
theorem updatePeer_allOrNothing (clean : Clean P) (ids : (w.peers.map Peer.peerId).Nodup)
    (found : w.rowOf? asn peerName = some old) (active : old.status = .active)
    {r : Except PeerError Peer} (one : failed.length ≤ 1)
    (h : Runs cfg P w (updatePeer cfg asn peerName pubkey endpoint linkLocal mtu) failed r w') :
    AllOrNothing cfg asn pubkey endpoint linkLocal mtu old r w w' ↔
      .io (.setStatus old.peerId .active) ∉ failed := by
  have same : ({ old with status := .active } : Peer) = old := by rw [← active]
  cases updatePeer_runs clean ids found (by simp [active]) one h with
  | stored last row iface => exact iff_of_true ⟨_, row, rfl, requested_active⟩ last
  | kept last row => exact iff_of_true ⟨old, row, rfl, rfl⟩ last
  | restored last row =>
    rw [same] at row
    exact iff_of_true ⟨old, row, rfl, rfl⟩ last
  | stranded last hleft iface =>
    refine iff_of_false ?_ (not_not.mpr last)
    rintro ⟨row, hrow', -, rfl⟩
    -- The table cannot hold both the stored row, which is Provisioning, and the old one.
    rcases (hrow'.mem _).mp ((hleft.mem _).mpr (.inl rfl)) with he | ⟨-, hne⟩
    · exact absurd (congrArg Peer.status he) (by simp [desiredPeer, active])
    · exact hne rfl

section Sample

/-- A request to the Active peer: a new key, an endpoint, addresses of its own and the default MTU. -/
def sampleUpdate : Manager Peer :=
  updatePeer sampleConfig 4242421111 "a" ⟨"new key"⟩ (some (some "peer.example:51820"))
    (some (asnLinkLocal 7, asnLinkLocal 8)) (some none)

/-- The interface does not take the new address: the compensation restores the row. -/
theorem updatePeer_allOrNothing_restored : ∃ r w',
    Runs sampleConfig noneLate servedWorld sampleUpdate
      [.io (.configureLocalAddress "wgp1" (asnLinkLocal 7))] r w' ∧
    AllOrNothing sampleConfig 4242421111 ⟨"new key"⟩ (some (some "peer.example:51820"))
      (some (asnLinkLocal 7, asnLinkLocal 8)) (some none) (sampleRow 1 "a" .active) r servedWorld
      w' := by
  have run : ((trial (exec sampleConfig) refused
      (onlyFails (.io (.configureLocalAddress "wgp1" (asnLinkLocal 7)))) sampleUpdate.run
      servedWorld).map Prod.fst) = some [.io (.configureLocalAddress "wgp1" (asnLinkLocal 7))] := by
    decide +kernel
  obtain ⟨⟨failed, r, w'⟩, hrun, rfl⟩ := Option.map_eq_some_iff.mp run
  have h := trial_suffers (P := noneLate) (noneLate_onlyFails _) hrun
  refine ⟨r, w', h, ?_⟩
  refine (updatePeer_allOrNothing clean_noneLate (by decide) ?_ rfl (by decide) h).mpr (by decide)
  decide

/-- Only the last call of the update fails: the row keeps the new values and stays Provisioning. -/
theorem update_not_allOrNothing : ∃ r w',
    Runs sampleConfig noneLate servedWorld sampleUpdate [.io (.setStatus 1 .active)] r w' ∧
    ¬AllOrNothing sampleConfig 4242421111 ⟨"new key"⟩ (some (some "peer.example:51820"))
      (some (asnLinkLocal 7, asnLinkLocal 8)) (some none) (sampleRow 1 "a" .active) r servedWorld
      w' := by
  have run : ((trial (exec sampleConfig) refused (onlyFails (.io (.setStatus 1 .active)))
      sampleUpdate.run servedWorld).map fun x =>
        (x.1, x.2.1.isOk, decide (sampleRow 1 "a" .active ∈ x.2.2.peers))) =
      some ([.io (.setStatus 1 .active)], false, false) := by
    decide +kernel
  obtain ⟨⟨failed, r, w'⟩, hrun, he⟩ := Option.map_eq_some_iff.mp run
  simp only [Prod.mk.injEq, decide_eq_false_iff_not] at he
  obtain ⟨rfl, herror, hgone⟩ := he
  refine ⟨r, w', trial_suffers (noneLate_onlyFails _) hrun, ?_⟩
  rintro ⟨row, hrow, -, hresult⟩
  cases r with
  | ok reply => cases herror
  | error error =>
    cases hresult
    exact hgone ((hrow.mem _).mpr (.inl rfl))

end Sample

end Autopeer.UpdateAtomicity
