import Autopeer.ChangeDelivery
import Autopeer.OperationEffects
import Autopeer.Recovery
import Autopeer.SnapshotConvergence

/-! What the calls do to the interfaces of one name and to the row of one id. -/
namespace Autopeer.NamedInterfaces
open PeerData ProgramTree
open ManagerWorld ManagerPrograms ManagerFootprints ManagerEffects ManagerRules
open OperationEffects InterfaceEffects TableIdentity TableDiscipline TableInvariant ChangeDelivery
open SnapshotConvergence (Recorded recorded_enqueue)

variable {cfg : Config} {o : Outcome} {w w' : World} {t : Tables} {p : Peer} {k peerId : UInt32}

section Interfaces
variable {name : String} {F G : Iface → Prop}

/-- The interfaces of this name are the same. -/
def SameNamed (name : String) (w w' : World) : Prop :=
  ∀ i : Iface, i.name = name → (i ∈ w'.ifaces ↔ i ∈ w.ifaces)

lemma sameNamed_of_eq (h : w'.ifaces = w.ifaces) : SameNamed name w w' := fun _ _ => by rw [h]

lemma SameNamed.hasIface (h : SameNamed name w w') : w'.hasIface name = w.hasIface name := by
  rw [Bool.eq_iff_iff, hasIface_iff, hasIface_iff]
  exact exists_congr fun i => and_congr_left fun hi => h i hi

/-- There is an interface of this name, and each of the name is so. -/
def Carries (name : String) (F : Iface → Prop) (w : World) : Prop :=
  w.hasIface name = true ∧ ∀ i ∈ w.ifaces, i.name = name → F i

lemma Carries.frame (h : Carries name F w) (same : SameNamed name w w') : Carries name F w' :=
  ⟨same.hasIface.trans h.1, fun i hi hn => h.2 i ((same i hn).mp hi) hn⟩

lemma Carries.setIface {f : Iface → Iface} (hf : ∀ i, (f i).name = i.name) (h : Carries name F w)
    (hG : ∀ i, F i → G (f i)) : Carries name G (w.setIface name f) := by
  refine ⟨(setIface_hasIface hf).trans h.1, fun i hi hn => ?_⟩
  rcases mem_setIface.mp hi with ⟨-, hne⟩ | ⟨j, hj, hjn, rfl⟩
  · exact absurd hn hne
  · exact hG j (h.2 j hj hjn)

lemma carries_addLink : Carries name (fun _ => True) (w.addLink name) :=
  ⟨addLink_hasIface, fun _ _ _ => trivial⟩

lemma Carries.addLink (h : Carries name F w) : w.addLink name = w := if_pos h.1

/-- The interface of the row is there and up, with the MTU of the row. -/
def Linked (p : Peer) : World → Prop :=
  Carries p.ifaceName fun i =>
    i.ifAlias = some (aliasPrefix ++ toString p.peerId) ∧ i.mtu = some p.mtu

/-- It also has the keys, the port and the endpoint. -/
def Keyed (p : Peer) (w : World) : Prop :=
  ∃ endpoint : Option SocketAddr, endpoint.isSome = p.endpoint.isSome ∧
    Carries p.ifaceName (fun i => i.ifAlias = some (aliasPrefix ++ toString p.peerId) ∧
      i.mtu = some p.mtu ∧ i.pubkey = some p.pubkey ∧ i.listenPort = some p.listenPort ∧
      i.endpoint = endpoint) w

lemma Configured.frame (h : Configured p w) (same : SameNamed p.ifaceName w w') : Configured p w' := by
  obtain ⟨endpoint, hs, hc⟩ := h
  exact ⟨endpoint, hs, Carries.frame hc same⟩

section Calls
variable {c : Io} {a : Except PeerError c.Value}

/-- A call on an interface has no effect, or its effect, or leaves a bare link. -/
lemma exec_touch (hc : OnIface name c) (h : exec cfg o (.io c) w = some (a, w')) :
    w' = w ∨ w' = (effect cfg c w).2 ∨
      (w' = w.addLink name ∧ ∃ peerId mtu, c = .ensureWgInterface name peerId mtu) := by
  cases o with
  | ok =>
    simp only [exec, Option.some.injEq] at h
    exact .inr (.inl (congrArg Prod.snd h).symm)
  | resolved _ => simp [exec] at h
  | fail error =>
    simp only [exec, Option.some.injEq, Prod.mk.injEq] at h
    exact .inl h.2.symm
  | late error =>
    cases c <;> simp only [exec, Option.some.injEq, Prod.mk.injEq, reduceCtorEq] at h <;>
      exact .inr (.inl h.2.symm)
  | half error =>
    cases c with
    | ensureWgInterface ifaceName peerId mtu =>
      obtain rfl : ifaceName = name := hc
      simp only [exec, Option.some.injEq, Prod.mk.injEq] at h
      exact .inr (.inr ⟨h.2.symm, _, _, rfl⟩)
    | _ => simp [exec] at h
  | birdFails failure error => cases c <;> simp [exec] at h <;> exact hc.elim

lemma exec_sameNamed {n : String} (hc : OnIface name c) (h : exec cfg o (.io c) w = some (a, w'))
    (hn : n ≠ name) : SameNamed n w w' := fun i hi => (exec_onIface hc h).2 i (hi.symm ▸ hn)

lemma effect_ifaces (hc : ∀ n, ¬OnIface n c) : (effect cfg c w).2.ifaces = w.ifaces := by
  cases c with
  | nextPeerId =>
    rw [effect]
    split <;> rfl
  | reservePeer peer test =>
    rw [effect]
    split
    · rfl
    · split <;> rfl
  | updatePeerDesired peer =>
    rw [effect]
    split <;> rfl
  | ensureWgInterface => exact absurd rfl (hc _)
  | configurePeer => exact absurd rfl (hc _)
  | configureLocalAddress => exact absurd rfl (hc _)
  | deleteInterface => exact absurd rfl (hc _)
  | _ => rfl

/-- The other calls leave all interfaces alone. -/
lemma exec_ifaces (hc : ∀ n, ¬OnIface n c) (h : exec cfg o (.io c) w = some (a, w')) :
    w'.ifaces = w.ifaces := by
  have whole := @effect_ifaces cfg w c hc
  cases o with
  | ok =>
    simp only [exec, Option.some.injEq] at h
    rwa [h] at whole
  | resolved _ => simp [exec] at h
  | fail error =>
    simp only [exec, Option.some.injEq, Prod.mk.injEq] at h
    rw [h.2]
  | late error =>
    cases c <;> simp only [exec, Option.some.injEq, Prod.mk.injEq, reduceCtorEq] at h <;>
      rwa [h.2] at whole
  | half error =>
    cases c with
    | ensureWgInterface => exact absurd rfl (hc _)
    | _ => simp [exec] at h
  | birdFails failure error =>
    cases c <;> simp only [exec, Option.map_eq_some_iff, Prod.mk.injEq, reduceCtorEq] at h
    obtain ⟨b, -, -, rfl⟩ := h
    rfl

/-- The listener's next call on the interface of its row brings the interface one stage further. -/
lemma linked_of_ensure {v : Unit}
    (h : exec cfg o (.io (.ensureWgInterface p.ifaceName p.peerId p.mtu)) w = some (.ok v, w')) :
    Linked p w' := by
  obtain ⟨-, rfl⟩ := Prod.mk.inj (exec_ok h)
  exact carries_addLink.setIface (by simp) fun _ _ => ⟨rfl, rfl⟩

lemma Linked.keyed {endpoint : Option SocketAddr} {v : Unit} (hl : Linked p w)
    (resolved : endpoint.isSome = p.endpoint.isSome)
    (h : exec cfg o (.io (.configurePeer p.ifaceName p.listenPort p.pubkey endpoint)) w =
      some (.ok v, w')) : Keyed p w' := by
  have he := exec_ok h
  rw [effect, if_pos hl.1] at he
  obtain ⟨-, rfl⟩ := Prod.mk.inj he
  exact ⟨endpoint, resolved, hl.setIface (by simp) fun _ hi => ⟨hi.1, hi.2, rfl, rfl, rfl⟩⟩

lemma Keyed.configured {v : Unit} (hk : Keyed p w)
    (h : exec cfg o (.io (.configureLocalAddress p.ifaceName p.localLlIp)) w = some (.ok v, w')) :
    Configured p w' := by
  obtain ⟨endpoint, hs, hc⟩ := hk
  have he := exec_ok h
  rw [effect, if_pos hc.1] at he
  obtain ⟨-, rfl⟩ := Prod.mk.inj he
  refine ⟨endpoint, hs, Carries.setIface (by simp) hc fun i hi => ?_⟩
  exact ⟨hi.1, hi.2.1, hi.2.2.1, hi.2.2.2.1, hi.2.2.2.2, by simp⟩

lemma removed_of_delete {v : Unit}
    (h : exec cfg o (.io (.deleteInterface name)) w = some (.ok v, w')) : w'.hasIface name = false := by
  obtain ⟨-, rfl⟩ := Prod.mk.inj (exec_ok h)
  exact Recovery.dropIface_noIface

/-- An interface that is not there is not there after a removal, well or badly ended. -/
lemma exec_removes {n : String} {v : Except PeerError Unit} (hn : w.hasIface n = false)
    (h : exec cfg o (.io (.deleteInterface name)) w = some (v, w')) : w'.hasIface n = false := by
  rcases exec_touch (c := .deleteInterface name) rfl h with rfl | rfl | ⟨-, _, _, hc⟩
  · exact hn
  · rw [World.hasIface, List.any_eq_false] at hn ⊢
    exact fun i hi => hn i (mem_dropIface.mp hi).1
  · cases hc

/-- What recovery does for a row leaves the interface set up for it, whether it works or not. -/
lemma Configured.repaired (hp : Configured p w)
    (h : exec cfg o (.io c) w = some (a, w')) (hc : OnIface p.ifaceName c)
    (own : c = .ensureWgInterface p.ifaceName p.peerId p.mtu ∨
      (∃ endpoint : Option SocketAddr, endpoint.isSome = p.endpoint.isSome ∧
        c = .configurePeer p.ifaceName p.listenPort p.pubkey endpoint) ∨
      c = .configureLocalAddress p.ifaceName p.localLlIp) : Configured p w' := by
  obtain ⟨endpoint, hs, hset⟩ := hp
  rcases exec_touch hc h with rfl | rfl | ⟨rfl, -⟩
  · exact ⟨endpoint, hs, hset⟩
  · rcases own with rfl | ⟨endpoint', hs', rfl⟩ | rfl
    · rw [effect, Carries.addLink hset]
      exact ⟨endpoint, hs, Carries.setIface (by simp) hset fun _ hi =>
        { hi with ifAlias := rfl, mtu := rfl }⟩
    · rw [effect, if_pos hset.1]
      exact ⟨endpoint', hs', Carries.setIface (by simp) hset fun _ hi =>
        { hi with pubkey := rfl, endpoint := rfl, listenPort := rfl }⟩
    · rw [effect, if_pos hset.1]
      exact ⟨endpoint, hs, Carries.setIface (by simp) hset fun _ hi => { hi with address := by simp }⟩
  · rw [Carries.addLink hset]
    exact ⟨endpoint, hs, hset⟩

end Calls

end Interfaces

section Rows

/-- The row of an id is as it was, or there is a new event of it. -/
def RowMoved (t u : Tables) (k : UInt32) : Prop :=
  u.row? k = t.row? k ∨ Recorded t u fun q => q.peerId = k

lemma rowMoved_of_eq {u : Tables} (h : u.peers = t.peers) : RowMoved t u k := .inl (by
  rw [Tables.row?, Tables.row?, h])

lemma row?_replace {f : Peer → Peer} (hf : ∀ r, (f r).peerId = r.peerId) (hk : k ≠ peerId) :
    (t.replaceRow peerId f).row? k = t.row? k := by
  rw [Tables.row?, Tables.row?, Tables.replaceRow]
  induction t.peers with
  | nil => rfl
  | cons r l ih =>
    rw [List.map_cons, List.find?_cons, List.find?_cons, ih]
    by_cases hr : r.peerId = peerId
    · simp [hr, hf, hk.symm]
    · simp [hr]

lemma row?_remove (hk : k ≠ peerId) : (t.removeRow peerId).row? k = t.row? k := by
  rw [Tables.row?, Tables.row?, Tables.removeRow]
  induction t.peers with
  | nil => rfl
  | cons r l ih =>
    by_cases hr : r.peerId = peerId
    · simpa [hr, hk.symm] using ih
    · rw [List.filter_cons_of_pos (by simpa using hr), List.find?_cons, List.find?_cons, ih]

lemma rowMoved_updateRow {f : Peer → Peer} (hf : ∀ r, (f r).peerId = r.peerId) :
    RowMoved t (t.updateRow peerId f).2 k := by
  rcases updateRow_cases t peerId f with ⟨-, he⟩ | ⟨r, hr, he⟩
  · exact .inl (by rw [he])
  · rw [he]
    by_cases hk : k = peerId
    · exact .inr (recorded_enqueue rfl ((hf r).trans ((row?_some hr).2.trans hk.symm)))
    · exact .inl (row?_replace hf hk)

lemma rowMoved_deleteRow : RowMoved t (t.deleteRow peerId).2 k := by
  rcases deleteRow_cases t peerId with ⟨-, he⟩ | ⟨r, hr, he⟩
  · exact .inl (by rw [he])
  · rw [he]
    by_cases hk : k = peerId
    · exact .inr (recorded_enqueue rfl ((row?_some hr).2.trans hk.symm))
    · exact .inl (row?_remove hk)

lemma rowMoved_insertRow : RowMoved t (t.insertRow p) k := by
  by_cases hk : k = p.peerId
  · exact .inr (recorded_enqueue rfl hk.symm)
  · refine .inl ?_
    change (t.peers ++ [p]).find? _ = t.peers.find? _
    rw [List.find?_append, List.find?_cons_of_neg (by simpa using Ne.symm hk)]
    simp

lemma rowMoved_effect (c : Io) : RowMoved w.toTables (effect cfg c w).2.toTables k := by
  cases c with
  | nextPeerId =>
    rw [effect]
    split <;> exact rowMoved_of_eq rfl
  | reservePeer p test =>
    rw [effect]
    split
    · exact rowMoved_of_eq rfl
    · split
      · exact rowMoved_of_eq rfl
      · exact rowMoved_insertRow
  | updatePeerDesired p =>
    rw [effect]
    split
    · exact rowMoved_of_eq rfl
    · exact rowMoved_updateRow fun _ => rfl
  | setStatus peerId status => exact rowMoved_updateRow fun _ => rfl
  | deletePeer peerId => exact rowMoved_deleteRow
  | ensureWgInterface ifaceName peerId mtu =>
    refine rowMoved_of_eq ?_
    simp only [effect, World.setIface, World.addLink]
    split <;> rfl
  | configurePeer ifaceName listenPort pubkey endpoint =>
    rw [effect]
    split <;> exact rowMoved_of_eq rfl
  | configureLocalAddress ifaceName address =>
    rw [effect]
    split <;> exact rowMoved_of_eq rfl
  | _ => exact rowMoved_of_eq rfl

lemma exec_rowMoved {c : Io} {a : Except PeerError c.Value}
    (h : exec cfg o (.io c) w = some (a, w')) : RowMoved w.toTables w'.toTables k := by
  have whole := @rowMoved_effect cfg w k c
  rcases exec_tables h with heff | ⟨-, same | heff⟩
  · rwa [heff] at whole
  · exact rowMoved_of_eq (by rw [same])
  · rwa [heff]

end Rows

end Autopeer.NamedInterfaces
