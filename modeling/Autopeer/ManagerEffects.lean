import Autopeer.ManagerSystem

/-! What the calls can do, read off their definitions once: the cases of a row update, and which
part of the world a call leaves alone. -/
namespace Autopeer.ManagerEffects
open PeerData BirdGeneration ManagerWorld ManagerPrograms

section Tables
variable {t : Tables} {peerId : UInt32} {r : Peer} {f : Peer → Peer}

lemma row?_some (h : t.row? peerId = some r) : r ∈ t.peers ∧ r.peerId = peerId :=
  ⟨List.mem_of_find?_eq_some h, by simpa using List.find?_some h⟩

lemma row?_none (h : t.row? peerId = none) : ∀ r ∈ t.peers, r.peerId ≠ peerId := by
  simpa using List.find?_eq_none.mp h

lemma rowOf?_some {asn : UInt32} {peerName : String} (h : t.rowOf? asn peerName = some r) :
    r ∈ t.peers ∧ r.asn = asn ∧ r.peerName = peerName :=
  ⟨List.mem_of_find?_eq_some h, by simpa using List.find?_some h⟩

lemma rowOf?_none {asn : UInt32} {peerName : String} (h : t.rowOf? asn peerName = none) :
    ∀ r ∈ t.peers, r.pair ≠ (asn, peerName) := by
  intro r hr hp
  have := List.find?_eq_none.mp h r hr
  simp only [Peer.pair, Prod.mk.injEq] at hp
  simp [hp] at this

lemma row?_eq_of_mem (hu : (t.peers.map Peer.peerId).Nodup) (hr : r ∈ t.peers) :
    t.row? r.peerId = some r := by
  cases h : t.row? r.peerId with
  | none => exact absurd rfl (row?_none h r hr)
  | some q =>
    obtain ⟨hq, hid⟩ := row?_some h
    rw [List.inj_on_of_nodup_map hu hq hr hid]

lemma conflicts_false {p : Peer} : t.conflicts p = false ↔
    ∀ r ∈ t.peers, r.peerId ≠ p.peerId ∧ r.pair ≠ p.pair ∧ r.listenPort ≠ p.listenPort := by
  simp only [Tables.conflicts, List.any_eq_false, Peer.pair, ne_eq, Prod.mk.injEq]
  refine forall₂_congr fun r _ => ?_
  simp only [Bool.or_eq_true, Bool.and_eq_true, decide_eq_true_eq]
  tauto

variable (t peerId f) in
/-- An update finds no row and does nothing, or rewrites the row and records it. -/
lemma updateRow_cases : (t.row? peerId = none ∧ t.updateRow peerId f = (false, t)) ∨
    ∃ r, t.row? peerId = some r ∧
      t.updateRow peerId f = (true, (t.replaceRow peerId f).enqueue "UPDATE" (f r)) := by
  unfold Tables.updateRow
  cases h : t.row? peerId with
  | none => exact .inl ⟨rfl, rfl⟩
  | some r => exact .inr ⟨r, rfl, rfl⟩

variable (t peerId) in
lemma deleteRow_cases : (t.row? peerId = none ∧ t.deleteRow peerId = (false, t)) ∨
    ∃ r, t.row? peerId = some r ∧
      t.deleteRow peerId = (true, (t.removeRow peerId).enqueue "DELETE" r) := by
  unfold Tables.deleteRow
  cases h : t.row? peerId with
  | none => exact .inl ⟨rfl, rfl⟩
  | some r => exact .inr ⟨r, rfl, rfl⟩

lemma updateRow_born : (t.updateRow peerId f).2.born = t.born := by
  rcases updateRow_cases t peerId f with ⟨-, he⟩ | ⟨r, -, he⟩ <;> rw [he] <;> rfl

lemma deleteRow_born : (t.deleteRow peerId).2.born = t.born := by
  rcases deleteRow_cases t peerId with ⟨-, he⟩ | ⟨r, -, he⟩ <;> rw [he] <;> rfl

lemma mem_replaceRow {q : Peer} : q ∈ (t.replaceRow peerId f).peers ↔
    (q ∈ t.peers ∧ q.peerId ≠ peerId) ∨ ∃ r ∈ t.peers, r.peerId = peerId ∧ f r = q := by
  simp only [Tables.replaceRow, List.mem_map]
  constructor
  · rintro ⟨r, hr, rfl⟩
    split_ifs with h
    · exact .inr ⟨r, hr, h, rfl⟩
    · exact .inl ⟨hr, h⟩
  · rintro (⟨hq, hne⟩ | ⟨r, hr, hid, rfl⟩)
    · exact ⟨q, hq, by simp [hne]⟩
    · exact ⟨r, hr, by simp [hid]⟩

lemma mem_removeRow {q : Peer} :
    q ∈ (t.removeRow peerId).peers ↔ q ∈ t.peers ∧ q.peerId ≠ peerId := by
  simp [Tables.removeRow]

@[simp] lemma enqueue_peers {operation : String} {p : Peer} :
    (t.enqueue operation p).peers = t.peers := rfl
@[simp] lemma enqueue_born {operation : String} {p : Peer} :
    (t.enqueue operation p).born = t.born := rfl
@[simp] lemma enqueue_peerSeq {operation : String} {p : Peer} :
    (t.enqueue operation p).peerSeq = t.peerSeq := rfl
@[simp] lemma enqueue_events {operation : String} {p : Peer} :
    (t.enqueue operation p).events = t.events ++ [⟨t.nextEvent, operation, p⟩] := rfl
@[simp] lemma enqueue_nextEvent {operation : String} {p : Peer} :
    (t.enqueue operation p).nextEvent = t.nextEvent + 1 := rfl
@[simp] lemma replaceRow_born : (t.replaceRow peerId f).born = t.born := rfl
@[simp] lemma replaceRow_peerSeq : (t.replaceRow peerId f).peerSeq = t.peerSeq := rfl
@[simp] lemma replaceRow_events : (t.replaceRow peerId f).events = t.events := rfl
@[simp] lemma replaceRow_nextEvent : (t.replaceRow peerId f).nextEvent = t.nextEvent := rfl
@[simp] lemma removeRow_born : (t.removeRow peerId).born = t.born := rfl
@[simp] lemma removeRow_peerSeq : (t.removeRow peerId).peerSeq = t.peerSeq := rfl
@[simp] lemma removeRow_events : (t.removeRow peerId).events = t.events := rfl
@[simp] lemma removeRow_nextEvent : (t.removeRow peerId).nextEvent = t.nextEvent := rfl

@[simp] lemma mem_listPeers {cfg : Config} {p : Peer} : p ∈ t.listPeers cfg ↔ p ∈ t.peers :=
  (List.perm_insertionSort _ _).mem_iff

@[simp] lemma mem_listPeerChanges {e : PeerChange} : e ∈ t.listPeerChanges ↔ e ∈ t.events :=
  (List.perm_insertionSort _ _).mem_iff

end Tables

section Nft

lemma mem_dedup {port : UInt16} : ∀ {ports : List UInt16}, port ∈ dedup ports ↔ port ∈ ports
  | [] | [_] => by simp [dedup]
  | a :: b :: l => by
    rw [dedup]
    split
    · rename_i hab
      rw [mem_dedup, hab]
      simp
    · rw [List.mem_cons, mem_dedup, List.mem_cons (l := b :: l)]

/-- The installed ports are those of the enabled peers. -/
theorem mem_nftPorts {peers : List Peer} {port : UInt16} :
    port ∈ nftPorts peers ↔ ∃ p ∈ peers, p.enabled ∧ p.listenPort = port := by
  rw [nftPorts, mem_dedup, (List.perm_insertionSort _ _).mem_iff]
  simp [and_assoc]

end Nft

section Exec
variable {cfg : Config} {o : Outcome} {c : Io} {w w' : World} {r : Except PeerError c.Value}

/-- A call that answers well has had exactly its effect. -/
theorem exec_ok {v : c.Value} (h : exec cfg o (.io c) w = some (.ok v, w')) :
    effect cfg c w = (.ok v, w') := by
  cases o with
  | ok => simpa [exec] using h
  | resolved _ => simp [exec] at h
  | fail _ => simp [exec] at h
  | late _ => cases c <;> simp [exec] at h
  | half _ => cases c <;> simp [exec] at h
  | birdFails _ _ => cases c <;> simp [exec] at h

/-- Whatever a call answers, the tables are as before or as its effect leaves them. -/
theorem exec_tables (h : exec cfg o (.io c) w = some (r, w')) :
    (effect cfg c w = (r, w')) ∨ ((∃ error, r = .error error) ∧
      (w'.toTables = w.toTables ∨ w'.toTables = (effect cfg c w).2.toTables)) := by
  cases o with
  | ok => exact .inl (by simpa [exec] using h)
  | resolved _ => simp [exec] at h
  | fail error =>
    obtain ⟨rfl, rfl⟩ : .error error = r ∧ w = w' := by simpa [exec] using h
    exact .inr ⟨⟨_, rfl⟩, .inl rfl⟩
  | late error =>
    refine .inr ?_
    cases c <;> simp only [exec, Option.some.injEq, Prod.mk.injEq, reduceCtorEq] at h <;>
      exact ⟨⟨_, h.1.symm⟩, .inr (by rw [← h.2])⟩
  | half error =>
    cases c <;> simp only [exec, Option.some.injEq, Prod.mk.injEq, reduceCtorEq] at h
    refine .inr ⟨⟨_, h.1.symm⟩, .inl ?_⟩
    rw [← h.2, World.addLink]
    split <;> rfl
  | birdFails failure error =>
    cases c <;> simp only [exec, Option.map_eq_some_iff, Prod.mk.injEq, reduceCtorEq] at h
    obtain ⟨b, -, hr, rfl⟩ := h
    exact .inr ⟨⟨_, hr.symm⟩, .inl rfl⟩

/-- What the rows, the links, the firewall and BIRD leave alone, the effect of a call leaves alone. -/
lemma effect_projection {β : Type} (π : World → β) (rows : ∀ t, π (w.withTables t) = π w)
    (links : ∀ ifaces, π { w with ifaces } = π w)
    (nft : ∀ ports, c = .runNftBatch ports → π { w with nft := ports } = π w)
    (bird : ∀ peers force b, c = .syncBirdFiles peers force → π { w with bird := b } = π w) :
    π (effect cfg c w).2 = π w := by
  cases c with
  | nextPeerId =>
    rw [effect]
    split
    · exact rows { w.toTables with peerSeq := w.peerSeq + 1 }
    · rfl
  | reservePeer peer test =>
    rw [effect]
    split
    · rfl
    · split
      · exact rows { w.toTables with nextEvent := w.nextEvent + 1 }
      · exact rows _
  | updatePeerDesired peer =>
    rw [effect]
    split
    · rfl
    · exact rows _
  | ensureWgInterface ifaceName peerId mtu =>
    simp only [effect, World.setIface, World.addLink]
    split <;> exact links _
  | configurePeer ifaceName listenPort pubkey endpoint =>
    rw [effect]
    split
    · exact links _
    · rfl
  | configureLocalAddress ifaceName address =>
    rw [effect]
    split
    · exact links _
    · rfl
  | deletePeerChange eventId => exact rows _
  | setStatus peerId status => exact rows _
  | deletePeer peerId => exact rows _
  | deleteInterface ifaceName => exact links _
  | runNftBatch ports => exact nft ports rfl
  | syncBirdFiles peers force => exact bird peers force _ rfl
  | _ => rfl

lemma effect_locks : (effect cfg c w).2.locks = w.locks :=
  effect_projection World.locks (fun _ => rfl) (fun _ => rfl) (fun _ _ => rfl) fun _ _ _ _ => rfl

/-- What the effect of a call, a bare link and a sync of BIRD that fails leave alone, the call leaves
alone. -/
lemma exec_projection {β : Type} (π : World → β) (h : exec cfg o (.io c) w = some (r, w'))
    (whole : π (effect cfg c w).2 = π w) (link : ∀ name, π (w.addLink name) = π w)
    (bird : ∀ peers force b, c = .syncBirdFiles peers force → π { w with bird := b } = π w) :
    π w' = π w := by
  cases o with
  | ok =>
    simp only [exec, Option.some.injEq] at h
    rwa [h] at whole
  | resolved _ => simp [exec] at h
  | fail error =>
    simp only [exec, Option.some.injEq, Prod.mk.injEq] at h
    rw [h.2]
  | late error =>
    cases c <;> simp only [exec, Option.some.injEq, Prod.mk.injEq, reduceCtorEq] at h <;>
      rwa [h.2] at whole
  | half error =>
    cases c <;> simp only [exec, Option.some.injEq, Prod.mk.injEq, reduceCtorEq] at h
    rw [← h.2]
    exact link _
  | birdFails failure error =>
    cases c <;> simp only [exec, Option.map_eq_some_iff, Prod.mk.injEq, reduceCtorEq] at h
    obtain ⟨b, -, -, rfl⟩ := h
    exact bird _ _ b rfl

/-- Only lock calls move the locks. -/
theorem exec_locks (h : exec cfg o (.io c) w = some (r, w')) : w'.locks = w.locks := by
  refine exec_projection World.locks h effect_locks (fun name => ?_) fun _ _ _ _ => rfl
  rw [World.addLink]
  split <;> rfl

lemma effect_born_eq (hc : ∀ p test, c ≠ .reservePeer p test) :
    (effect cfg c w).2.born = w.born := by
  cases c with
  | reservePeer p test => exact absurd rfl (hc p test)
  | updatePeerDesired p =>
    simp only [effect]
    split
    · rfl
    · exact updateRow_born
  | setStatus peerId status => exact updateRow_born
  | deletePeer peerId => exact deleteRow_born
  | nextPeerId =>
    simp only [effect]
    split <;> rfl
  | ensureWgInterface ifaceName peerId mtu =>
    simp only [effect, World.setIface, World.addLink]
    split <;> rfl
  | configurePeer ifaceName listenPort pubkey endpoint =>
    simp only [effect]
    split <;> rfl
  | configureLocalAddress ifaceName address =>
    simp only [effect]
    split <;> rfl
  | _ => rfl

/-- Only a reservation inserts. -/
lemma exec_born_eq {e : Call} {a : Answer e} (h : exec cfg o e w = some (a, w'))
    (he : ∀ p test, e ≠ .io (.reservePeer p test)) : w'.born = w.born := by
  cases e with
  | io c =>
    have same : (effect cfg c w).2.born = w.born := effect_born_eq fun p test hc => he p test (hc ▸ rfl)
    rcases exec_tables h with heq | ⟨-, ht | ht⟩
    · rw [← same, heq]
    · rw [ht]
    · rw [ht, same]
  | lock l =>
    cases o <;> simp only [exec, Option.ite_none_left_eq_some, reduceCtorEq, Option.some.injEq,
      Prod.mk.injEq] at h
    rw [← h.2.2]
  | unlock l =>
    cases o <;> simp only [exec, reduceCtorEq, Option.some.injEq, Prod.mk.injEq] at h
    rw [← h.2]
  | resolveEndpoint endpoint =>
    cases o <;> simp only [exec, reduceCtorEq, Option.some.injEq, Prod.mk.injEq] at h <;> rw [← h.2]

end Exec

end Autopeer.ManagerEffects
