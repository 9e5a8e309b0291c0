import Autopeer.ManagerEffects
import Autopeer.ManagerFootprints

/-! The identity of rows. Each inserted row keeps its id, pair, interface name and port, ids are
never used twice, and the keys of the table stay unique, whatever the tasks do. -/
namespace Autopeer.TableIdentity
open Ipv6 PeerData BirdGeneration ProgramTree ProgramPool TransitionRuns
open ManagerWorld ManagerPrograms ManagerSystem ManagerFootprints ManagerEffects

/-- What an update may not change. -/
def identity (p : Peer) : UInt32 × UInt32 × String × String × UInt16 :=
  (p.peerId, p.asn, p.peerName, p.ifaceName, p.listenPort)

section Fields
variable {p q : Peer} (h : identity p = identity q)
include h

lemma identity_peerId : p.peerId = q.peerId := congrArg Prod.fst h
lemma identity_asn : p.asn = q.asn := congrArg (fun x => x.2.1) h
lemma identity_peerName : p.peerName = q.peerName := congrArg (fun x => x.2.2.1) h
lemma identity_ifaceName : p.ifaceName = q.ifaceName := congrArg (fun x => x.2.2.2.1) h
lemma identity_listenPort : p.listenPort = q.listenPort := congrArg (fun x => x.2.2.2.2) h

lemma identity_pair : p.pair = q.pair := by
  rw [Peer.pair, Peer.pair, identity_asn h, identity_peerName h]

end Fields

structure Identified (t : Tables) : Prop where
  bornIds : (t.born.map Peer.peerId).Nodup
  bornSeq : ∀ b ∈ t.born, b.peerId.toNat < t.peerSeq
  bornNames : ∀ b ∈ t.born, b.ifaceName = wgpName b.peerId
  rowBorn : ∀ r ∈ t.peers, ∃ b ∈ t.born, identity b = identity r
  eventBorn : ∀ e ∈ t.events, ∃ b ∈ t.born, identity b = identity e.peer
  rowIds : (t.peers.map Peer.peerId).Nodup
  rowPairs : (t.peers.map Peer.pair).Nodup
  rowPorts : (t.peers.map Peer.listenPort).Nodup
  eventIds : (t.events.map PeerChange.eventId).Nodup
  eventNext : ∀ e ∈ t.events, e.eventId < t.nextEvent

/-- The peer is, or was, a row of the table. -/
def Known (t : Tables) (p : Peer) : Prop := ∃ b ∈ t.born, identity b = identity p

section Consequences
variable {t : Tables} (h : Identified t)
include h

/-- Two peers that were rows and share the id share the whole identity. -/
theorem Known.identity_eq {p q : Peer} (hp : Known t p) (hq : Known t q)
    (hid : p.peerId = q.peerId) : identity p = identity q := by
  obtain ⟨a, ha, hap⟩ := hp
  obtain ⟨b, hb, hbq⟩ := hq
  have hab : a.peerId = b.peerId :=
    (identity_peerId hap).trans (hid.trans (identity_peerId hbq).symm)
  rw [← hap, ← hbq, List.inj_on_of_nodup_map h.bornIds ha hb hab]

theorem Known.ifaceName {p : Peer} (hp : Known t p) : p.ifaceName = wgpName p.peerId := by
  obtain ⟨b, hb, hbp⟩ := hp
  rw [← identity_ifaceName hbp, ← identity_peerId hbp]
  exact h.bornNames b hb

lemma namesValid : NamesValid t.peers := fun p hp _ => Known.ifaceName h (h.rowBorn p hp)

lemma row_unique {p q : Peer} (hp : p ∈ t.peers) (hq : q ∈ t.peers) (hid : p.peerId = q.peerId) :
    p = q := List.inj_on_of_nodup_map h.rowIds hp hq hid

lemma event_unique {e e' : PeerChange} (he : e ∈ t.events) (he' : e' ∈ t.events)
    (hid : e.eventId = e'.eventId) : e = e' := List.inj_on_of_nodup_map h.eventIds he he' hid

end Consequences

section Steps
variable {t : Tables} (h : Identified t)

lemma Known.mono {t' : Tables} (hb : t.born ⊆ t'.born) {p : Peer} (hp : Known t p) : Known t' p := by
  obtain ⟨b, hm, he⟩ := hp
  exact ⟨b, hb hm, he⟩

include h

/-- Recording a known peer in the event queue. -/
lemma Identified.enqueue {operation : String} {p : Peer} (hp : Known t p) :
    Identified (t.enqueue operation p) where
  bornIds := h.bornIds
  bornSeq := h.bornSeq
  bornNames := h.bornNames
  rowBorn := h.rowBorn
  eventBorn := by
    intro e he
    rcases List.mem_append.mp he with he | he
    · exact h.eventBorn e he
    · rw [List.mem_singleton.mp he]
      exact hp
  rowIds := h.rowIds
  rowPairs := h.rowPairs
  rowPorts := h.rowPorts
  eventIds := by
    simp only [enqueue_events, List.map_append, List.map_cons, List.map_nil]
    refine h.eventIds.append (List.nodup_singleton _) ?_
    intro x hx hx'
    obtain ⟨e, he, rfl⟩ := List.mem_map.mp hx
    exact (h.eventNext e he).ne (List.mem_singleton.mp hx')
  eventNext := by
    intro e he
    simp only [enqueue_events, enqueue_nextEvent, List.mem_append, List.mem_singleton] at he ⊢
    rcases he with he | rfl
    · exact (h.eventNext e he).trans (Nat.lt_succ_self _)
    · exact Nat.lt_succ_self _

theorem Identified.insert {p : Peer} (free : t.conflicts p = false)
    (fresh : ∀ b ∈ t.born, b.peerId ≠ p.peerId) (seq : p.peerId.toNat < t.peerSeq)
    (name : p.ifaceName = wgpName p.peerId) : Identified (t.insertRow p) := by
  have hfree := conflicts_false.mp free
  have base : Identified { t with peers := t.peers ++ [p], born := t.born ++ [p] } :=
    { bornIds := by
        simp only [List.map_append, List.map_cons, List.map_nil]
        refine h.bornIds.append (List.nodup_singleton _) ?_
        intro x hx hx'
        obtain ⟨b, hb, rfl⟩ := List.mem_map.mp hx
        exact fresh b hb (List.mem_singleton.mp hx')
      bornSeq := by
        intro b hb
        rcases List.mem_append.mp hb with hb | hb
        · exact h.bornSeq b hb
        · rwa [List.mem_singleton.mp hb]
      bornNames := by
        intro b hb
        rcases List.mem_append.mp hb with hb | hb
        · exact h.bornNames b hb
        · rwa [List.mem_singleton.mp hb]
      rowBorn := by
        intro r hr
        rcases List.mem_append.mp hr with hr | hr
        · exact Known.mono (List.subset_append_left _ _) (h.rowBorn r hr)
        · exact ⟨p, by simp, by rw [List.mem_singleton.mp hr]⟩
      eventBorn := fun e he => Known.mono (List.subset_append_left _ _) (h.eventBorn e he)
      rowIds := by
        simp only [List.map_append, List.map_cons, List.map_nil]
        refine h.rowIds.append (List.nodup_singleton _) ?_
        intro x hx hx'
        obtain ⟨r, hr, rfl⟩ := List.mem_map.mp hx
        exact (hfree r hr).1 (List.mem_singleton.mp hx')
      rowPairs := by
        simp only [List.map_append, List.map_cons, List.map_nil]
        refine h.rowPairs.append (List.nodup_singleton _) ?_
        intro x hx hx'
        obtain ⟨r, hr, rfl⟩ := List.mem_map.mp hx
        exact (hfree r hr).2.1 (List.mem_singleton.mp hx')
      rowPorts := by
        simp only [List.map_append, List.map_cons, List.map_nil]
        refine h.rowPorts.append (List.nodup_singleton _) ?_
        intro x hx hx'
        obtain ⟨r, hr, rfl⟩ := List.mem_map.mp hx
        exact (hfree r hr).2.2 (List.mem_singleton.mp hx')
      eventIds := h.eventIds
      eventNext := h.eventNext }
  exact base.enqueue ⟨p, by simp, rfl⟩

/-- A rewrite of one row that keeps its identity. -/
theorem Identified.replace {peerId : UInt32} {f : Peer → Peer}
    (keep : ∀ r ∈ t.peers, r.peerId = peerId → identity (f r) = identity r) :
    Identified (t.replaceRow peerId f) := by
  have same : (t.replaceRow peerId f).peers.map identity = t.peers.map identity := by
    simp only [Tables.replaceRow, List.map_map]
    refine List.map_congr_left fun r hr => ?_
    by_cases hid : r.peerId = peerId
    · simp [hid, keep r hr hid]
    · simp [hid]
  have proj : ∀ {β : Type} (g : UInt32 × UInt32 × String × String × UInt16 → β),
      (t.replaceRow peerId f).peers.map (fun r => g (identity r)) =
        t.peers.map fun r => g (identity r) := fun g => by
    simpa only [List.map_map, Function.comp_def] using congrArg (List.map g) same
  exact
    { bornIds := h.bornIds
      bornSeq := h.bornSeq
      bornNames := h.bornNames
      rowBorn := by
        intro q hq
        rcases mem_replaceRow.mp hq with ⟨hq, -⟩ | ⟨r, hr, hid, rfl⟩
        · exact h.rowBorn q hq
        · rw [keep r hr hid]
          exact h.rowBorn r hr
      eventBorn := h.eventBorn
      rowIds := (proj fun x => x.1).symm ▸ h.rowIds
      rowPairs := (proj fun x => (x.2.1, x.2.2.1)).symm ▸ h.rowPairs
      rowPorts := (proj fun x => x.2.2.2.2).symm ▸ h.rowPorts
      eventIds := h.eventIds
      eventNext := h.eventNext }

theorem Identified.remove {peerId : UInt32} : Identified (t.removeRow peerId) where
  bornIds := h.bornIds
  bornSeq := h.bornSeq
  bornNames := h.bornNames
  rowBorn := fun r hr => h.rowBorn r (mem_removeRow.mp hr).1
  eventBorn := h.eventBorn
  rowIds := h.rowIds.sublist (List.filter_sublist.map _)
  rowPairs := h.rowPairs.sublist (List.filter_sublist.map _)
  rowPorts := h.rowPorts.sublist (List.filter_sublist.map _)
  eventIds := h.eventIds
  eventNext := h.eventNext

theorem Identified.updateRow {peerId : UInt32} {f : Peer → Peer}
    (keep : ∀ r ∈ t.peers, r.peerId = peerId → identity (f r) = identity r) :
    Identified (t.updateRow peerId f).2 := by
  rcases updateRow_cases t peerId f with ⟨-, he⟩ | ⟨r, hr, he⟩
  · rwa [he]
  · obtain ⟨hm, hid⟩ := row?_some hr
    rw [he]
    refine (h.replace keep).enqueue ?_
    change Known t (f r)
    rw [Known, keep r hm hid]
    exact h.rowBorn r hm

theorem Identified.deleteRow (peerId : UInt32) : Identified (t.deleteRow peerId).2 := by
  rcases deleteRow_cases t peerId with ⟨-, he⟩ | ⟨r, hr, he⟩
  · rwa [he]
  · rw [he]
    exact h.remove.enqueue (h.rowBorn r (row?_some hr).1)

theorem Identified.deleteChange {eventId : ℕ} : Identified (t.deleteChange eventId) where
  bornIds := h.bornIds
  bornSeq := h.bornSeq
  bornNames := h.bornNames
  rowBorn := h.rowBorn
  eventBorn := fun e he => h.eventBorn e (List.mem_filter.mp he).1
  rowIds := h.rowIds
  rowPairs := h.rowPairs
  rowPorts := h.rowPorts
  eventIds := h.eventIds.sublist (List.filter_sublist.map _)
  eventNext := fun e he => h.eventNext e (List.mem_filter.mp he).1

/-- The trigger draws an event id that no event gets. -/
theorem Identified.drawEventId : Identified { t with nextEvent := t.nextEvent + 1 } :=
  { h with eventNext := fun e he => (h.eventNext e he).trans (Nat.lt_succ_self _) }

theorem Identified.nextPeerId : Identified { t with peerSeq := t.peerSeq + 1 } :=
  { h with bornSeq := fun b hb => (h.bornSeq b hb).trans (Nat.lt_succ_self _) }

end Steps

end Autopeer.TableIdentity
