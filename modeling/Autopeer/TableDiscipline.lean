import Autopeer.TableIdentity
import Autopeer.ManagerRules

/-! Why the rows keep their identity while tasks interleave. A task stores a desired row only for
a peer it has read, and inserts a row only under an id it drew from the sequence itself. -/
namespace Autopeer.TableDiscipline
open Ipv6 PeerData ProgramTree ProgramPool TransitionRuns
open ManagerWorld ManagerPrograms ManagerSystem ManagerFootprints ManagerEffects ManagerRules
open TableIdentity

variable {cfg : Config} {L : Ipv6Addr × Ipv6Addr → Prop} {V : Peer → Prop}

/-- What a task has read and drawn so far. -/
structure Seen where
  known : List Peer
  fresh : Option UInt32

def Seen.start : Seen := ⟨[], none⟩

/-- A condition on rows that requests with addresses in `L` keep, whatever the status. -/
structure RowLaw (cfg : Config) (L : Ipv6Addr × Ipv6Addr → Prop) (V : Peer → Prop) : Prop where
  status : ∀ p status, V p → V { p with status }
  built : ∀ peerId asn peerName pubkey endpoint linkLocal increment mtu, asn ≠ cfg.localAsn →
    (∀ l, linkLocal = some l → L l) →
    V (buildPeer peerId asn peerName pubkey endpoint
      (linkLocal.getD (asnLinkLocal cfg.localAsn, asnLinkLocal asn)) (searchPort asn increment) mtu)
  desired : ∀ p pubkey endpoint linkLocal mtu, V p → (∀ l, linkLocal = some l → L l) →
    V (desiredPeer cfg p.asn pubkey endpoint linkLocal mtu p)

/-- What a condition on rows must allow a request of this kind: to insert the row that it asks for, or
to change the row of its pair. -/
structure OpLaw (cfg : Config) (V : Peer → Prop) (op : Op) : Prop where
  built : ∀ asn peerName pubkey endpoint linkLocal mtu,
    op = .createPeer asn peerName pubkey endpoint linkLocal mtu → asn ≠ cfg.localAsn →
    ∀ peerId increment, V (buildPeer peerId asn peerName pubkey endpoint
      (linkLocal.getD (asnLinkLocal cfg.localAsn, asnLinkLocal asn)) (searchPort asn increment)
      (mtu.getD 1420))
  desired : ∀ asn peerName pubkey endpoint linkLocal mtu,
    op = .updatePeer asn peerName pubkey endpoint linkLocal mtu →
    ∀ p, V p → p.asn = asn → p.peerName = peerName →
      V (desiredPeer cfg asn pubkey endpoint linkLocal mtu p)

def seenAllowed (V : Peer → Prop) (m : Seen) : Call → Prop
  | .io .nextPeerId => m.fresh = none
  | .io (.reservePeer p false) =>
    m.fresh = some p.peerId ∧ V p ∧ p.ifaceName = wgpName p.peerId
  | .io (.updatePeerDesired q) => V q ∧ ∃ p ∈ m.known, identity p = identity q
  | _ => True

def seenAnswer (V : Peer → Prop) : (e : Call) → Answer e → Prop
  | .io (.getPeer asn peerName), .ok (some p) => V p ∧ p.asn = asn ∧ p.peerName = peerName
  | .io .nextPeerId, .ok n => n ≤ lastPeerId
  | _, _ => True

def seenNext (m : Seen) : (e : Call) → Answer e → Seen
  | .io (.getPeer ..), .ok (some p) => { m with known := p :: m.known }
  | .io .nextPeerId, .ok n => { m with fresh := some (.ofNat n) }
  | .io (.reservePeer _ false), .ok false => m
  | .io (.reservePeer _ false), _ => { m with fresh := none }
  | _, _ => m

def seen (V : Peer → Prop) : Discipline Call Answer Seen :=
  ⟨Seen.start, seenAllowed V, fun _ => seenAnswer V, seenNext⟩

section Programs
variable {m : Seen}

lemma seen_background {e : Call} (h : Background e) :
    seenAllowed V m e ∧ ∀ r, seenNext m e r = m := by
  cases e with
  | io c =>
    cases c with
    | getPeer asn peerName => exact h.elim
    | nextPeerId => exact h.elim
    | reservePeer p test => exact h.elim
    | updatePeerDesired q => exact h.elim
    | _ => exact ⟨trivial, fun _ => rfl⟩
  | _ => exact ⟨trivial, fun _ => rfl⟩

lemma seen_onPeer {p : Peer} {e : Call}
    (h : OnPeer p (fun q => V q ∧ ∃ p ∈ m.known, identity p = identity q) e) :
    seenAllowed V m e ∧ ∀ r, seenNext m e r = m := by
  cases e with
  | io c =>
    cases c with
    | updatePeerDesired q => exact ⟨h, fun _ => rfl⟩
    | getPeer asn peerName => exact h.elim
    | nextPeerId => exact h.elim
    | reservePeer p test => exact h.elim
    | _ => exact ⟨trivial, fun _ => rfl⟩
  | _ => exact ⟨trivial, fun _ => rfl⟩

lemma follows_of_background {α : Type} {x : Manager α} (h : Calls Background x.run) :
    Follows (seen V) x.run m fun _ _ => True :=
  (Follows.of_calls (h.mono fun _ => seen_background)).mono fun _ _ _ => trivial

lemma follows_of_onPeer {α : Type} {p : Peer} {x : Manager α}
    (h : Calls (OnPeer p fun q => V q ∧ ∃ p ∈ m.known, identity p = identity q) x.run) :
    Follows (seen V) x.run m fun _ _ => True :=
  (Follows.of_calls (h.mono fun _ => seen_onPeer)).mono fun _ _ _ => trivial

/-- The search inserts nothing but the row it was given a port for. -/
lemma follows_reserveFrom {asn : UInt32} {peerName : String} {test : Bool} {peerAt : UInt16 → Peer}
    {increments : List ℕ} {peerId : UInt32} (hm : m.fresh = some peerId)
    (hid : ∀ port, (peerAt port).peerId = peerId)
    (hname : ∀ port, (peerAt port).ifaceName = wgpName peerId)
    (hV : test = false → ∀ increment, V (peerAt (searchPort asn increment))) :
    Follows (seen V) (reserveFrom asn peerName test peerAt increments).run m fun _ _ => True := by
  induction increments generalizing m with
  | nil => exact follows_throw trivial
  | cons increment increments ih =>
    refine follows_io_bind trivial (fun inUse _ => ?_) fun _ _ => trivial
    cases inUse with
    | true => exact ih hm
    | false =>
      refine follows_io_bind ?_ (fun reserved _ => ?_) fun _ _ => trivial
      · cases test with
        | true => trivial
        | false => exact ⟨by rw [hid]; exact hm, hV rfl increment, by rw [hid, hname]⟩
      · cases reserved with
        | true => exact follows_return trivial
        | false =>
          refine follows_io_bind trivial (fun taken _ => ?_) fun _ _ => trivial
          cases taken with
          | true => exact follows_throw trivial
          | false => cases test <;> exact ih hm

lemma follows_reservePeer {asn : UInt32} {peerName : String} {pubkey : WgPubKey}
    {endpoint : Option String} {linkLocal : Option (Ipv6Addr × Ipv6Addr)} {mtu : UInt16}
    (hm : m.fresh = none)
    (hV : asn ≠ cfg.localAsn → ∀ peerId increment, V (buildPeer peerId asn peerName pubkey endpoint
      (linkLocal.getD (asnLinkLocal cfg.localAsn, asnLinkLocal asn)) (searchPort asn increment) mtu)) :
    Follows (seen V) (reservePeer cfg asn peerName pubkey endpoint linkLocal mtu).run m
      fun _ _ => True := by
  refine Follows.run_bind (x := allocatePeerId) (B := fun m' r => ∀ peerId, r = .ok peerId →
    m'.fresh = some peerId) ?_ (fun m' peerId h => ?_) fun _ _ _ => trivial
  · refine follows_io_bind hm (fun n hn => ?_) fun e _ peerId h => by cases h
    have small : n < 2 ^ 32 := lt_of_le_of_lt hn (by decide)
    simp only [small, ↓reduceIte]
    refine follows_return fun peerId h => ?_
    cases h
    rfl
  · generalize List.range 10000 = increments
    refine follows_reserveFrom (h peerId rfl) (fun _ => rfl) (fun _ => rfl) fun htest increment => ?_
    exact hV (by simpa using htest) peerId increment

lemma follows_createPeer {asn : UInt32} {peerName : String} {pubkey : WgPubKey}
    {endpoint : Option String} {linkLocal : Option (Ipv6Addr × Ipv6Addr)} {mtu : Option UInt16}
    (law : OpLaw cfg V (.createPeer asn peerName pubkey endpoint linkLocal mtu)) :
    Follows (seen V) (createPeer cfg asn peerName pubkey endpoint linkLocal mtu).run Seen.start
      fun _ _ => True := by
  refine follows_withLock trivial fun _ => ?_
  refine follows_io_bind trivial (fun taken _ => ?_) fun _ _ => ⟨trivial, fun _ => trivial⟩
  cases taken with
  | true => exact follows_throw ⟨trivial, fun _ => trivial⟩
  | false =>
    refine Follows.run_bind (B := fun _ _ => True) ?_ (fun m' peer _ => ?_)
      fun _ _ _ => ⟨trivial, fun _ => trivial⟩
    · refine follows_withLock trivial fun _ => ?_
      exact (follows_reservePeer rfl (law.built _ _ _ _ _ _ rfl)).mono fun _ _ _ =>
        ⟨trivial, fun _ => trivial⟩
    · split
      · exact follows_return ⟨trivial, fun _ => trivial⟩
      · exact (follows_of_onPeer (calls_provision asn)).mono fun _ _ _ => ⟨trivial, fun _ => trivial⟩

lemma follows_updatePeer {asn : UInt32} {peerName : String} {pubkey : WgPubKey}
    {endpoint : Option (Option String)} {linkLocal : Option (Ipv6Addr × Ipv6Addr)}
    {mtu : Option (Option UInt16)}
    (law : OpLaw cfg V (.updatePeer asn peerName pubkey endpoint linkLocal mtu)) :
    Follows (seen V) (updatePeer cfg asn peerName pubkey endpoint linkLocal mtu).run Seen.start
      fun _ _ => True := by
  refine follows_withLock trivial fun _ => ?_
  refine follows_io_bind trivial (fun row hrow => ?_) fun _ _ => ⟨trivial, fun _ => trivial⟩
  cases row with
  | none => exact follows_throw ⟨trivial, fun _ => trivial⟩
  | some old =>
    obtain ⟨hV, rfl, rfl⟩ := hrow
    refine Follows.run_bind (x := orNotFound _ _ (some old))
      (B := fun m' r => m' = ⟨[old], none⟩ ∧ r = .ok old) ⟨rfl, rfl⟩ (fun m' p h => ?_)
      fun m' e h => by cases h.2
    obtain ⟨rfl, hp⟩ := h
    cases hp
    split
    · exact follows_throw ⟨trivial, fun _ => trivial⟩
    · have hW := law.desired _ _ _ _ _ _ rfl old hV rfl rfl
      have hknown : ∃ p ∈ (⟨[old], none⟩ : Seen).known, identity p = identity old :=
        ⟨old, List.mem_singleton_self _, rfl⟩
      refine follows_io_bind ⟨hW, old, List.mem_singleton_self _, rfl⟩ (fun stored _ => ?_)
        fun _ _ => ⟨trivial, fun _ => trivial⟩
      cases stored with
      | false => exact follows_throw ⟨trivial, fun _ => trivial⟩
      | true =>
        exact (follows_of_onPeer (calls_reprovision old.asn old.peerName
          (q := desiredPeer cfg old.asn pubkey endpoint linkLocal mtu old) ⟨hV, hknown⟩ rfl rfl)).mono
          fun _ _ _ => ⟨trivial, fun _ => trivial⟩

lemma follows_deletePeer {asn : UInt32} {peerName : String} :
    Follows (seen V) (deletePeer asn peerName).run Seen.start fun _ _ => True := by
  refine follows_withLock trivial fun _ => ?_
  refine follows_io_bind trivial (fun row _ => ?_) fun _ _ => ⟨trivial, fun _ => trivial⟩
  cases row with
  | none => exact follows_throw ⟨trivial, fun _ => trivial⟩
  | some peer =>
    refine Follows.run_bind (x := orNotFound _ _ (some peer)) (B := fun _ _ => True) trivial
      (fun m' p _ => ?_) fun _ _ _ => ⟨trivial, fun _ => trivial⟩
    refine follows_io_bind trivial (fun marked _ => ?_) fun _ _ => ⟨trivial, fun _ => trivial⟩
    cases marked with
    | false => exact follows_throw ⟨trivial, fun _ => trivial⟩
    | true =>
      exact (follows_of_onPeer (calls_dismantle _ _)).mono fun _ _ _ => ⟨trivial, fun _ => trivial⟩

end Programs

section Invariant

structure SeenInv (V : Peer → Prop) (t : Tables) (μ : ℕ → Seen) : Prop where
  identified : Identified t
  rows : ∀ r ∈ t.peers, V r
  known : ∀ i, ∀ p ∈ (μ i).known, Known t p
  fresh : ∀ i n, (μ i).fresh = some n → n.toNat < t.peerSeq ∧ ∀ b ∈ t.born, b.peerId ≠ n
  freshInj : ∀ i j n, (μ i).fresh = some n → (μ j).fresh = some n → i = j

variable {t t' : Tables} {μ μ' : ℕ → Seen} {w w' : World} {i : ℕ}

/-- Forgetting what a task has read or drawn. -/
lemma SeenInv.forget (h : SeenInv V t μ) (hknown : ∀ i, (μ' i).known ⊆ (μ i).known)
    (hfresh : ∀ i n, (μ' i).fresh = some n → (μ i).fresh = some n) : SeenInv V t μ' where
  identified := h.identified
  rows := h.rows
  known := fun i p hp => h.known i p (hknown i hp)
  fresh := fun i n hn => h.fresh i n (hfresh i n hn)
  freshInj := fun i j n hi hj => h.freshInj i j n (hfresh i n hi) (hfresh j n hj)

lemma SeenInv.forgetAt (h : SeenInv V t μ) {m : Seen} (hknown : m.known ⊆ (μ i).known)
    (hfresh : ∀ n, m.fresh = some n → (μ i).fresh = some n) :
    SeenInv V t (Function.update μ i m) := by
  refine h.forget (fun j => ?_) fun j n => ?_
  · rcases eq_or_ne j i with rfl | hj
    · rwa [Function.update_self]
    · rw [Function.update_of_ne hj]
      exact List.Subset.refl _
  · rcases eq_or_ne j i with rfl | hj
    · rw [Function.update_self]
      exact hfresh n
    · rw [Function.update_of_ne hj]
      exact id

/-- A change that inserts nothing and keeps the condition on rows. -/
lemma SeenInv.change (h : SeenInv V t μ) (hi : Identified t') (hrows : ∀ r ∈ t'.peers, V r)
    (hborn : t'.born = t.born) (hseq : t.peerSeq ≤ t'.peerSeq) : SeenInv V t' μ where
  identified := hi
  rows := hrows
  known := fun i p hp => Known.mono (by rw [hborn]; exact List.Subset.refl _) (h.known i p hp)
  fresh := fun i n hn => ⟨(h.fresh i n hn).1.trans_le hseq, by rw [hborn]; exact (h.fresh i n hn).2⟩
  freshInj := h.freshInj

lemma SeenInv.updateRow (h : SeenInv V t μ) {peerId : UInt32} {f : Peer → Peer}
    (keep : ∀ r ∈ t.peers, r.peerId = peerId → identity (f r) = identity r ∧ V (f r)) :
    SeenInv V (t.updateRow peerId f).2 μ := by
  have hi := h.identified.updateRow fun r hr hid => (keep r hr hid).1
  rcases updateRow_cases t peerId f with ⟨-, he⟩ | ⟨r, -, he⟩
  · rwa [he]
  · rw [he] at hi ⊢
    refine h.change hi (fun q hq => ?_) rfl le_rfl
    rcases mem_replaceRow.mp hq with ⟨hq, -⟩ | ⟨r, hr, hid, rfl⟩
    · exact h.rows q hq
    · exact (keep r hr hid).2

lemma SeenInv.deleteRow (h : SeenInv V t μ) {peerId : UInt32} :
    SeenInv V (t.deleteRow peerId).2 μ := by
  have hi := h.identified.deleteRow peerId
  rcases deleteRow_cases t peerId with ⟨-, he⟩ | ⟨r, -, he⟩
  · rwa [he]
  · rw [he] at hi ⊢
    exact h.change hi (fun q hq => h.rows q (mem_removeRow.mp hq).1) rfl le_rfl

/-- The draw of a new id. -/
lemma SeenInv.draw (h : SeenInv V t μ) (hn : t.peerSeq ≤ lastPeerId) :
    SeenInv V { t with peerSeq := t.peerSeq + 1 }
      (Function.update μ i { μ i with fresh := some (.ofNat t.peerSeq) }) := by
  have small : t.peerSeq < 2 ^ 32 := lt_of_le_of_lt hn (by decide)
  have value : (UInt32.ofNat t.peerSeq).toNat = t.peerSeq := by simpa using small
  have new : ∀ j n, (μ j).fresh = some n → n ≠ .ofNat t.peerSeq := by
    rintro j n hj rfl
    exact (value ▸ (h.fresh j _ hj).1).false
  exact
    { identified := h.identified.nextPeerId
      rows := h.rows
      known := by
        intro j p hp
        rcases eq_or_ne j i with rfl | hj
        · rw [Function.update_self] at hp
          exact h.known j p hp
        · rw [Function.update_of_ne hj] at hp
          exact h.known j p hp
      fresh := by
        intro j n hj
        rcases eq_or_ne j i with rfl | hji
        · rw [Function.update_self, Option.some.injEq] at hj
          subst hj
          refine ⟨by rw [value]; exact Nat.lt_succ_self _, fun b hb he => ?_⟩
          exact (value ▸ he ▸ h.identified.bornSeq b hb).false
        · rw [Function.update_of_ne hji] at hj
          exact ⟨(h.fresh j n hj).1.trans (Nat.lt_succ_self _), (h.fresh j n hj).2⟩
      freshInj := by
        intro j k n hj hk
        rcases eq_or_ne j i with rfl | hji <;> rcases eq_or_ne k j with rfl | hkj
        · rfl
        · rw [Function.update_self, Option.some.injEq] at hj
          rw [Function.update_of_ne hkj] at hk
          exact absurd hj.symm (new k n hk)
        · rfl
        · rw [Function.update_of_ne hji] at hj
          rcases eq_or_ne k i with rfl | hki
          · rw [Function.update_self, Option.some.injEq] at hk
            exact absurd hk.symm (new j n hj)
          · rw [Function.update_of_ne hki] at hk
            exact h.freshInj j k n hj hk }

/-- The insertion of a row under the id that the task drew; the id is spent. -/
lemma SeenInv.insert (h : SeenInv V t μ) {p : Peer} (hm : (μ i).fresh = some p.peerId) (hV : V p)
    (hname : p.ifaceName = wgpName p.peerId) (free : t.conflicts p = false) :
    SeenInv V (t.insertRow p) (Function.update μ i { μ i with fresh := none }) := by
  obtain ⟨hseq, hborn⟩ := h.fresh i _ hm
  exact
    { identified := h.identified.insert free hborn hseq hname
      rows := by
        intro r hr
        rcases List.mem_append.mp hr with hr | hr
        · exact h.rows r hr
        · rwa [List.mem_singleton.mp hr]
      known := by
        intro j q hq
        have hq : q ∈ (μ j).known := by
          rcases eq_or_ne j i with rfl | hj
          · rwa [Function.update_self] at hq
          · rwa [Function.update_of_ne hj] at hq
        exact Known.mono (List.subset_append_left _ _) (h.known j q hq)
      fresh := by
        intro j n hj
        rcases eq_or_ne j i with rfl | hji
        · simp at hj
        · rw [Function.update_of_ne hji] at hj
          refine ⟨(h.fresh j n hj).1, fun b hb => ?_⟩
          rcases List.mem_append.mp hb with hb | hb
          · exact (h.fresh j n hj).2 b hb
          · rw [List.mem_singleton.mp hb]
            rintro rfl
            exact hji (h.freshInj j i _ hj hm)
      freshInj := by
        intro j k n hj hk
        rcases eq_or_ne j i with rfl | hji
        · simp at hj
        · rcases eq_or_ne k i with rfl | hki
          · simp at hk
          · rw [Function.update_of_ne hji] at hj
            rw [Function.update_of_ne hki] at hk
            exact h.freshInj j k n hj hk }

/-- A task has read a row. -/
lemma SeenInv.read (h : SeenInv V t μ) {p : Peer} (hp : p ∈ t.peers) :
    SeenInv V t (Function.update μ i { μ i with known := p :: (μ i).known }) := by
  have fresh_eq : ∀ j, (Function.update μ i { μ i with known := p :: (μ i).known } j).fresh =
      (μ j).fresh := by
    intro j
    rcases eq_or_ne j i with rfl | hj
    · rw [Function.update_self]
    · rw [Function.update_of_ne hj]
  exact
    { identified := h.identified
      rows := h.rows
      known := by
        intro j q hq
        rcases eq_or_ne j i with rfl | hj
        · rw [Function.update_self] at hq
          rcases List.mem_cons.mp hq with rfl | hq
          · exact h.identified.rowBorn q hp
          · exact h.known j q hq
        · rw [Function.update_of_ne hj] at hq
          exact h.known j q hq
      fresh := fun j n hj => h.fresh j n (fresh_eq j ▸ hj)
      freshInj := fun j k n hj hk => h.freshInj j k n (fresh_eq j ▸ hj) (fresh_eq k ▸ hk) }

lemma SeenInv.idle (h : SeenInv V t μ) : SeenInv V t (Function.update μ i (μ i)) := by
  rwa [Function.update_eq_self]

lemma SeenInv.desired (h : SeenInv V t μ) {q : Peer} (status : ∀ p s, V p → V { p with status := s })
    (hV : V q) (hq : ∃ p ∈ (μ i).known, identity p = identity q) :
    SeenInv V (t.updateRow q.peerId (desiredColumns q)).2 μ := by
  obtain ⟨p, hp, hpq⟩ := hq
  refine h.updateRow fun r hr hid => ?_
  have same : identity r = identity q := (Known.identity_eq h.identified (h.identified.rowBorn r hr)
    (h.known i p hp) (hid.trans (identity_peerId hpq).symm)).trans hpq
  have form : desiredColumns q r = { q with status := .provisioning } := by
    simp only [desiredColumns, identity_peerId same, identity_peerName same, identity_asn same]
  rw [form]
  exact ⟨same.symm, status q _ hV⟩

/-- What the calls that work do to the tables and to the mode of the task. -/
theorem SeenInv.effect {c : Io} {r : Except PeerError c.Value}
    (status : ∀ p s, V p → V { p with status := s }) (h : SeenInv V w.toTables μ)
    (ha : seenAllowed V (μ i) (.io c)) (he : effect cfg c w = (r, w')) :
    seenAnswer V (.io c) r ∧
      SeenInv V w'.toTables (Function.update μ i (seenNext (μ i) (.io c) r)) := by
  cases c with
  | getPeer asn peerName =>
    obtain ⟨rfl, rfl⟩ := Prod.mk.inj he
    cases hrow : w.rowOf? asn peerName with
    | none => exact ⟨trivial, h.idle⟩
    | some p =>
      obtain ⟨hp, hasn, hname⟩ := rowOf?_some hrow
      exact ⟨⟨h.rows p hp, hasn, hname⟩, h.read hp⟩
  | nextPeerId =>
    simp only [ManagerWorld.effect] at he
    split at he
    · rename_i hn
      obtain ⟨rfl, rfl⟩ := Prod.mk.inj he
      exact ⟨hn, h.draw hn⟩
    · obtain ⟨rfl, rfl⟩ := Prod.mk.inj he
      exact ⟨trivial, h.idle⟩
  | reservePeer p test =>
    simp only [ManagerWorld.effect] at he
    split at he
    · obtain ⟨rfl, rfl⟩ := Prod.mk.inj he
      cases test <;> exact ⟨trivial, h.idle⟩
    · rename_i hfree
      cases test with
      | true =>
        obtain ⟨rfl, rfl⟩ := Prod.mk.inj he
        exact ⟨trivial, (h.change h.identified.drawEventId h.rows rfl le_rfl).idle⟩
      | false =>
        obtain ⟨rfl, rfl⟩ := Prod.mk.inj he
        obtain ⟨hm, hV, hname⟩ := ha
        have free : w.conflicts p = false := by simpa using hfree
        exact ⟨trivial, h.insert (p := { p with status := .provisioning }) hm (status p _ hV) hname
          free⟩
  | updatePeerDesired q =>
    simp only [ManagerWorld.effect] at he
    split at he
    · obtain ⟨rfl, rfl⟩ := Prod.mk.inj he
      exact ⟨trivial, h.idle⟩
    · obtain ⟨rfl, rfl⟩ := Prod.mk.inj he
      exact ⟨trivial, (h.desired status ha.1 ha.2).idle⟩
  | setStatus peerId st =>
    obtain ⟨rfl, rfl⟩ := Prod.mk.inj he
    exact ⟨trivial, (h.updateRow (f := fun row => { row with status := st.stored })
      fun r hr _ => ⟨rfl, status r _ (h.rows r hr)⟩).idle⟩
  | deletePeer peerId =>
    obtain ⟨rfl, rfl⟩ := Prod.mk.inj he
    exact ⟨trivial, h.deleteRow.idle⟩
  | deletePeerChange eventId =>
    obtain ⟨rfl, rfl⟩ := Prod.mk.inj he
    exact ⟨trivial, (h.change h.identified.deleteChange h.rows rfl le_rfl).idle⟩
  | configurePeer ifaceName listenPort pubkey endpoint =>
    simp only [ManagerWorld.effect] at he
    split at he <;> obtain ⟨rfl, rfl⟩ := Prod.mk.inj he <;> exact ⟨trivial, h.idle⟩
  | configureLocalAddress ifaceName address =>
    simp only [ManagerWorld.effect] at he
    split at he <;> obtain ⟨rfl, rfl⟩ := Prod.mk.inj he <;> exact ⟨trivial, h.idle⟩
  | ensureWgInterface ifaceName peerId mtu =>
    obtain ⟨rfl, rfl⟩ := Prod.mk.inj he
    refine ⟨trivial, ?_⟩
    have same : (w.addLink ifaceName).toTables = w.toTables := by
      rw [World.addLink]
      split <;> rfl
    exact same ▸ h.idle
  | _ =>
    obtain ⟨rfl, rfl⟩ := Prod.mk.inj he
    exact ⟨trivial, h.idle⟩

lemma seenNext_error {m : Seen} {c : Io} {error : PeerError} :
    (seenNext m (.io c) (.error error)).known ⊆ m.known ∧
      ∀ n, (seenNext m (.io c) (.error error)).fresh = some n → m.fresh = some n := by
  cases c with
  | reservePeer p test =>
    cases test with
    | false => exact ⟨List.Subset.refl _, fun _ h => by simp [seenNext] at h⟩
    | true => exact ⟨List.Subset.refl _, fun _ h => h⟩
  | _ => exact ⟨List.Subset.refl _, fun _ h => h⟩

/-- After an error a task counts on nothing that the call may have given it. -/
lemma seenNext_forget {m : Seen} {c : Io} {error : PeerError} {r : Except PeerError c.Value}
    (ha : seenAllowed V m (.io c)) :
    (seenNext m (.io c) (.error error)).known ⊆ (seenNext m (.io c) r).known ∧
      ∀ n, (seenNext m (.io c) (.error error)).fresh = some n →
        (seenNext m (.io c) r).fresh = some n := by
  cases r with
  | error e =>
    cases c with
    | reservePeer p test => cases test <;> exact ⟨List.Subset.refl _, fun _ h => h⟩
    | _ => exact ⟨List.Subset.refl _, fun _ h => h⟩
  | ok v =>
    cases c with
    | getPeer asn peerName =>
      cases v with
      | none => exact ⟨List.Subset.refl _, fun _ h => h⟩
      | some p => exact ⟨List.subset_cons_self _ _, fun _ h => h⟩
    | nextPeerId =>
      refine ⟨List.Subset.refl _, fun n h => ?_⟩
      change m.fresh = some n at h
      rw [show m.fresh = none from ha] at h
      cases h
    | reservePeer p test =>
      cases test with
      | true => exact ⟨List.Subset.refl _, fun _ h => h⟩
      | false => cases v <;> exact ⟨List.Subset.refl _, fun _ h => by simp [seenNext] at h⟩
    | _ => exact ⟨List.Subset.refl _, fun _ h => h⟩

theorem SeenInv.call {e : Call} {r : Answer e} {o : Outcome}
    (status : ∀ p s, V p → V { p with status := s }) (h : SeenInv V w.toTables μ)
    (ha : seenAllowed V (μ i) e) (hx : exec cfg o e w = some (r, w')) :
    seenAnswer V e r ∧ SeenInv V w'.toTables (Function.update μ i (seenNext (μ i) e r)) := by
  cases e with
  | io c =>
    rcases exec_tables hx with he | ⟨⟨error, rfl⟩, ht | ht⟩
    · exact h.effect status ha he
    · refine ⟨by cases c <;> trivial, ?_⟩
      rw [ht]
      exact h.forgetAt seenNext_error.1 seenNext_error.2
    · refine ⟨by cases c <;> trivial, ?_⟩
      have hw := (h.effect status ha (rfl : ManagerWorld.effect cfg c w = (_, _))).2
      rw [ht]
      have key := hw.forgetAt (i := i) (m := seenNext (μ i) (.io c) (.error error))
        (by rw [Function.update_self]; exact (seenNext_forget ha).1)
        (by rw [Function.update_self]; exact (seenNext_forget ha).2)
      rwa [Function.update_idem] at key
  | lock l =>
    cases o <;> simp only [exec, Option.ite_none_left_eq_some, reduceCtorEq, Option.some.injEq,
      Prod.mk.injEq] at hx
    obtain ⟨-, -, rfl⟩ := hx
    exact ⟨trivial, h.idle⟩
  | unlock l =>
    cases o <;> simp only [exec, reduceCtorEq, Option.some.injEq, Prod.mk.injEq] at hx
    obtain ⟨-, rfl⟩ := hx
    exact ⟨trivial, h.idle⟩
  | resolveEndpoint endpoint =>
    cases o <;> simp only [exec, reduceCtorEq, Option.some.injEq, Prod.mk.injEq] at hx <;>
      obtain ⟨-, rfl⟩ := hx <;> exact ⟨trivial, h.idle⟩

end Invariant

section Run

/-- The manual addresses of a request meet `L`. -/
def Manual (L : Ipv6Addr × Ipv6Addr → Prop) : Op → Prop
  | .createPeer _ _ _ _ linkLocal _ | .updatePeer _ _ _ _ linkLocal _ =>
    ∀ l, linkLocal = some l → L l
  | _ => True

lemma RowLaw.opLaw (law : RowLaw cfg L V) {op : Op} (hL : Manual L op) : OpLaw cfg V op where
  built := by
    rintro asn peerName pubkey endpoint linkLocal mtu rfl hasn peerId increment
    exact law.built _ _ _ _ _ _ _ _ hasn hL
  desired := by
    rintro asn peerName pubkey endpoint linkLocal mtu rfl p hV rfl -
    exact law.desired p pubkey endpoint linkLocal mtu hV hL

lemma follows_program {op : Op} (law : OpLaw cfg V op) :
    Follows (seen V) (program cfg op) Seen.start fun _ _ => True := by
  cases op with
  | createPeer asn peerName pubkey endpoint linkLocal mtu =>
    exact follows_answerPeer (follows_createPeer law)
  | updatePeer asn peerName pubkey endpoint linkLocal mtu =>
    exact follows_answerPeer (follows_updatePeer law)
  | deletePeer asn peerName => exact follows_answerPeer follows_deletePeer
  | syncPendingPeerChanges => exact follows_answerNone (follows_of_background calls_syncPendingPeerChanges)
  | syncNftPorts =>
    refine follows_answerNone (follows_of_background ?_)
    exact Calls.run_bind (calls_io trivial) fun _ => calls_withLock trivial trivial (calls_io trivial)
  | recover => exact follows_answerNone <| follows_of_background <|
      calls_recover.mono fun _ => Job.background

/-- Every task obeys the discipline and the tables are in order. -/
def InOrder (V : Peer → Prop) : System → Prop :=
  Keeps (seen V) (fun _ _ _ => True) fun w μ => SeenInv V w.toTables μ

theorem inOrder_step (status : ∀ p s, V p → V { p with status := s }) {s s' : System} {l : Label}
    (h : InOrder V s) (hl : ∀ op, l = .start op → OpLaw cfg V op) (hs : step cfg l s = some s') :
    InOrder V s' := by
  refine ManagerRules.keeps_step h hs ?_ ?_ ?_ ?_ ?_
  · intro i o _ μ t e next r w' _ hJ ha hx
    exact hJ.call status ha hx
  · intro op hop _ _ μ _ hJ
    exact ⟨Seen.start, follows_program (hl op hop),
      hJ.forgetAt (List.nil_subset _) fun n hn => by cases hn⟩
  · intro peerId _ _ μ _ hJ
    exact hJ.updateRow fun r hr _ => ⟨rfl, status r _ (hJ.rows r hr)⟩
  · intro peerId _ μ _ hJ
    exact hJ.deleteRow
  · intro _ μ hJ
    refine ⟨Seen.start, follows_program ⟨by simp, by simp⟩, ?_⟩
    rw [show (seen V).rest = Seen.start from rfl, Function.update_eq_self_iff.mpr rfl]
    exact hJ.forget (fun _ => List.nil_subset _) fun _ n hn => by cases hn

lemma inOrder_stopped {w : World} (h : Identified w.toTables) (hV : ∀ r ∈ w.peers, V r) :
    InOrder V (System.stopped w) :=
  ⟨fun _ => Seen.start, Obeys.nil,
    { identified := h
      rows := hV
      known := fun _ _ hp => by cases hp
      fresh := fun _ _ hn => by cases hn
      freshInj := fun _ _ _ hn => by cases hn }⟩

/-- The tables stay in order along every run whose requests keep the condition on rows. -/
theorem Reaches.inOrder_of (status : ∀ p s, V p → V { p with status := s })
    {P : System → Label → Prop} {s s' : System} (h : Reaches (step cfg) P s s') (start : InOrder V s)
    (hP : ∀ t op, P t (.start op) → OpLaw cfg V op) : InOrder V s' :=
  h.invariant start fun _ _ _ hJ hl hs =>
    inOrder_step status hJ (fun op hop => hP _ op (hop ▸ hl)) hs

/-- The tables stay in order along every run. -/
theorem Reaches.inOrder (law : RowLaw cfg L V) {P : System → Label → Prop} {s s' : System}
    (h : Reaches (step cfg) P s s') (start : InOrder V s)
    (hP : ∀ t op, P t (.start op) → Manual L op) : InOrder V s' :=
  Reaches.inOrder_of law.status h start fun t op hl => law.opLaw (hP t op hl)

lemma InOrder.identified {s : System} (h : InOrder V s) : Identified s.world.toTables := by
  obtain ⟨_, -, hJ⟩ := h
  exact hJ.identified

lemma InOrder.rows {s : System} (h : InOrder V s) : ∀ r ∈ s.world.peers, V r := by
  obtain ⟨_, -, hJ⟩ := h
  exact hJ.rows

lemma anyRow : RowLaw cfg (fun _ => True) fun _ => True :=
  ⟨fun _ _ _ => trivial, fun _ _ _ _ _ _ _ _ _ _ => trivial, fun _ _ _ _ _ _ _ => trivial⟩

lemma manual_any (op : Op) : Manual (fun _ => True) op := by
  cases op <;> first | exact trivial | exact fun _ _ => trivial

/-- The tables of every state of the service are in order. -/
lemma identified_reaches {w : World} {s : System} {P : System → Label → Prop} (ids : Identified w.toTables)
    (h : Reaches (step cfg) P (System.stopped w) s) : Identified s.world.toTables :=
  (Reaches.inOrder anyRow h (inOrder_stopped ids fun _ _ => trivial)
    fun _ op _ => manual_any op).identified

end Run

end Autopeer.TableDiscipline
