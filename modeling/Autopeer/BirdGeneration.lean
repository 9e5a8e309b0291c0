import Autopeer.Template

/-! The BIRD files of a peers list: one file for each enabled peer, in a map from file name to
content, and what a reader finds under each name. -/
namespace Autopeer.BirdGeneration
open PeerData Template

/-- The `.conf` files of one generation directory. -/
abbrev Generation := Std.ExtTreeMap String String

def confName (peer : Peer) : String := peer.ifaceName ++ ".conf"

def desiredFrom (localAsn : UInt32) (desired : Generation) : List Peer → Except PeerError Generation
  | [] => .ok desired
  | peer :: peers =>
    if peer.ifaceName ≠ wgpName peer.peerId then
      .error (.validation
        ("The database contains an invalid interface name for peer " ++ toString peer.peerId))
    else desiredFrom localAsn (desired.insert (confName peer) (renderPeerConfig localAsn peer)) peers

def desiredGeneration (localAsn : UInt32) (peers : List Peer) : Except PeerError Generation :=
  desiredFrom localAsn ∅ (peers.filter Peer.enabled)

/-- The same map without the check of the interface names. -/
def renderAll (localAsn : UInt32) (desired : Generation) (peers : List Peer) : Generation :=
  peers.foldl (fun d p => d.insert (confName p) (renderPeerConfig localAsn p)) desired

def rendering (localAsn : UInt32) (peers : List Peer) : Generation :=
  renderAll localAsn ∅ (peers.filter Peer.enabled)

/-- Every enabled peer has the interface name that belongs to its id. -/
def NamesValid (peers : List Peer) : Prop :=
  ∀ p ∈ peers, p.enabled → p.ifaceName = wgpName p.peerId

lemma desiredFrom_ok {localAsn : UInt32} {desired : Generation} {peers : List Peer}
    (h : ∀ p ∈ peers, p.ifaceName = wgpName p.peerId) :
    desiredFrom localAsn desired peers = .ok (renderAll localAsn desired peers) := by
  induction peers generalizing desired with
  | nil => rfl
  | cons p ps ih =>
    have hp : p.ifaceName = wgpName p.peerId := h p (by simp)
    simp only [desiredFrom, hp, ne_eq, not_true_eq_false, ↓reduceIte]
    rw [ih fun q hq => h q (by simp [hq])]
    rfl

theorem desiredGeneration_ok {localAsn : UInt32} {peers : List Peer} (h : NamesValid peers) :
    desiredGeneration localAsn peers = .ok (rendering localAsn peers) :=
  desiredFrom_ok fun p hp => h p (List.mem_filter.mp hp).1 (List.mem_filter.mp hp).2

lemma desiredFrom_inv {localAsn : UInt32} {desired d : Generation} {peers : List Peer}
    (h : desiredFrom localAsn desired peers = .ok d) :
    (∀ p ∈ peers, p.ifaceName = wgpName p.peerId) ∧ d = renderAll localAsn desired peers := by
  induction peers generalizing desired with
  | nil =>
    cases h
    exact ⟨by simp, rfl⟩
  | cons p ps ih =>
    simp only [desiredFrom] at h
    split at h
    · cases h
    · rename_i hp
      obtain ⟨hps, rfl⟩ := ih h
      exact ⟨by simpa using ⟨not_not.mp hp, hps⟩, rfl⟩

/-- The call goes on exactly when every enabled peer has its own interface name. -/
theorem desiredGeneration_inv {localAsn : UInt32} {peers : List Peer} {d : Generation}
    (h : desiredGeneration localAsn peers = .ok d) :
    NamesValid peers ∧ d = rendering localAsn peers := by
  obtain ⟨hn, hd⟩ := desiredFrom_inv h
  exact ⟨fun p hp he => hn p (List.mem_filter.mpr ⟨hp, he⟩), hd⟩

lemma confName_eq_iff {p q : Peer} (hp : p.ifaceName = wgpName p.peerId)
    (hq : q.ifaceName = wgpName q.peerId) : confName p = confName q ↔ p.peerId = q.peerId := by
  constructor
  · intro h
    have hs := congrArg String.toList h
    simp only [confName, String.toList_append, List.append_cancel_right_eq, hp, hq] at hs
    exact wgpName_injective (String.toList_inj.mp hs)
  · intro h
    rw [confName, confName, hp, hq, h]

/-- No two peers of the list write the same file. -/
def NamesDistinct (peers : List Peer) : Prop :=
  peers.Pairwise fun p q => confName p ≠ confName q

lemma renderAll_get_of_notMem {localAsn : UInt32} {desired : Generation} {peers : List Peer}
    {name : String} (h : ∀ p ∈ peers, confName p ≠ name) :
    (renderAll localAsn desired peers)[name]? = desired[name]? := by
  induction peers generalizing desired with
  | nil => rfl
  | cons p ps ih =>
    have hp : confName p ≠ name := h p (by simp)
    change (renderAll localAsn (desired.insert _ _) ps)[name]? = _
    rw [ih fun q hq => h q (by simp [hq]), Std.ExtTreeMap.getElem?_insert]
    simp [hp]

lemma renderAll_get_of_mem {localAsn : UInt32} {desired : Generation} {peers : List Peer}
    (h : NamesDistinct peers) {p : Peer} (hp : p ∈ peers) :
    (renderAll localAsn desired peers)[confName p]? = some (renderPeerConfig localAsn p) := by
  induction peers generalizing desired with
  | nil => simp at hp
  | cons q qs ih =>
    obtain ⟨hq, hqs⟩ := List.pairwise_cons.mp h
    change (renderAll localAsn (desired.insert _ _) qs)[confName p]? = _
    rcases List.mem_cons.mp hp with rfl | hp
    · rw [renderAll_get_of_notMem fun r hr => (hq r hr).symm, Std.ExtTreeMap.getElem?_insert]
      simp
    · exact ih hqs hp

/-- What the rendering holds under each name. -/
theorem rendering_get {localAsn : UInt32} {peers : List Peer}
    (h : NamesDistinct (peers.filter Peer.enabled)) {name content : String} :
    (rendering localAsn peers)[name]? = some content ↔
      ∃ p ∈ peers, p.enabled ∧ confName p = name ∧ renderPeerConfig localAsn p = content := by
  constructor
  · intro hc
    by_cases hm : ∃ p ∈ peers.filter Peer.enabled, confName p = name
    · obtain ⟨p, hp, rfl⟩ := hm
      rw [rendering, renderAll_get_of_mem h hp, Option.some.injEq] at hc
      exact ⟨p, (List.mem_filter.mp hp).1, (List.mem_filter.mp hp).2, rfl, hc⟩
    · push Not at hm
      rw [rendering, renderAll_get_of_notMem hm] at hc
      simp at hc
  · rintro ⟨p, hp, he, rfl, rfl⟩
    exact renderAll_get_of_mem h (List.mem_filter.mpr ⟨hp, he⟩)

/-- Two lists whose enabled peers give the same files render the same map. -/
theorem rendering_congr {localAsn : UInt32} {ps qs : List Peer}
    (hp : NamesDistinct (ps.filter Peer.enabled)) (hq : NamesDistinct (qs.filter Peer.enabled))
    (h : ∀ name content,
      (∃ p ∈ ps, p.enabled ∧ confName p = name ∧ renderPeerConfig localAsn p = content) ↔
        ∃ q ∈ qs, q.enabled ∧ confName q = name ∧ renderPeerConfig localAsn q = content) :
    rendering localAsn ps = rendering localAsn qs := by
  apply Std.ExtTreeMap.ext_getElem?
  intro name
  apply Option.ext
  intro content
  rw [rendering_get hp, rendering_get hq]
  exact h name content

theorem rendering_ext {localAsn : UInt32} {ps qs : List Peer}
    (hp : NamesDistinct (ps.filter Peer.enabled)) (hq : NamesDistinct (qs.filter Peer.enabled))
    (h : ∀ p, p ∈ ps ↔ p ∈ qs) : rendering localAsn ps = rendering localAsn qs :=
  rendering_congr hp hq fun _ _ => by simp only [h]

lemma namesDistinct_of_ids {peers : List Peer} (hn : NamesValid peers)
    (hid : peers.Pairwise fun p q => p.peerId ≠ q.peerId) :
    NamesDistinct (peers.filter Peer.enabled) := by
  refine (hid.filter _).imp_of_mem fun {p q} hp hq hne h => hne ?_
  obtain ⟨hp, hpe⟩ := List.mem_filter.mp hp
  obtain ⟨hq, hqe⟩ := List.mem_filter.mp hq
  exact (confName_eq_iff (hn p hp hpe) (hn q hq hqe)).mp h

end Autopeer.BirdGeneration
