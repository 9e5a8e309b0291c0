import Autopeer.SnapshotWriters

/-! What the writers leave when all is quiet. In every state the part shows what the table asks for, or
an event is in the queue that the listener has yet to come to, or the listener is about to write. -/
namespace Autopeer.SnapshotConvergence
open PeerData ProgramTree ProgramPool TransitionRuns
open ManagerWorld ManagerPrograms ManagerSystem ManagerFootprints ManagerEffects ManagerRules
open TableIdentity TableDiscipline TableInvariant ChangeDelivery SnapshotWriters

variable {cfg : Config} {X : Type} {U : Outlet cfg X} {o : Outcome} {w w' : World} {t : Tables}

section Records

/-- A change of the rows left an event that was not there before. -/
def Recorded (t u : Tables) (P : Peer → Prop) : Prop :=
  ∃ e ∈ u.events, t.nextEvent ≤ e.eventId ∧ P e.peer

lemma recorded_enqueue {u : Tables} {P : Peer → Prop} {operation : String} {p : Peer}
    (next : t.nextEvent = u.nextEvent) (hp : P p) : Recorded t (u.enqueue operation p) P :=
  ⟨⟨u.nextEvent, operation, p⟩, by simp, next.le, hp⟩

lemma Recorded.imp {u : Tables} {P Q : Peer → Prop} (h : Recorded t u P) (hPQ : ∀ p, P p → Q p) :
    Recorded t u Q := by
  obtain ⟨e, he, hid, hp⟩ := h
  exact ⟨e, he, hid, hPQ _ hp⟩

lemma updateRow_recorded (t : Tables) (peerId : UInt32) (f : Peer → Peer) :
    ((t.updateRow peerId f).1 = false ∧ (t.updateRow peerId f).2 = t) ∨
      ∃ r ∈ t.peers, r.peerId = peerId ∧ Recorded t (t.updateRow peerId f).2 (· = f r) := by
  rcases updateRow_cases t peerId f with ⟨-, he⟩ | ⟨r, hr, he⟩
  · exact .inl ⟨by rw [he], by rw [he]⟩
  · obtain ⟨hm, hid⟩ := row?_some hr
    rw [he]
    exact .inr ⟨r, hm, hid, recorded_enqueue rfl rfl⟩

lemma deleteRow_recorded (t : Tables) (peerId : UInt32) :
    (t.deleteRow peerId).2 = t ∨ Recorded t (t.deleteRow peerId).2 fun _ => True := by
  rcases deleteRow_cases t peerId with ⟨-, he⟩ | ⟨r, -, he⟩
  · exact .inl (by rw [he])
  · rw [he]
    exact .inr (recorded_enqueue rfl trivial)

/-- The rows stay as they are, or an event says that they changed. -/
def Moved (t u : Tables) : Prop := u.peers = t.peers ∨ Recorded t u fun _ => True

lemma Recorded.moved {u : Tables} {P : Peer → Prop} (h : Recorded t u P) : Moved t u :=
  .inr (h.imp fun _ _ => trivial)

lemma moved_updateRow {peerId : UInt32} {f : Peer → Peer} : Moved t (t.updateRow peerId f).2 := by
  rcases updateRow_recorded t _ f with ⟨-, he⟩ | ⟨r, -, -, hr⟩
  · exact .inl (by rw [he])
  · exact hr.moved

lemma moved_deleteRow {peerId : UInt32} : Moved t (t.deleteRow peerId).2 := by
  rcases deleteRow_recorded t peerId with he | hr
  · exact .inl (by rw [he])
  · exact hr.moved

lemma moved_effect (c : Io) : Moved w.toTables (effect cfg c w).2.toTables := by
  cases c with
  | nextPeerId =>
    rw [effect]
    split <;> exact .inl rfl
  | reservePeer p test =>
    rw [effect]
    split
    · exact .inl rfl
    · split
      · exact .inl rfl
      · have inserted : Recorded w.toTables (w.insertRow { p with status := .provisioning })
            fun _ => True := recorded_enqueue rfl trivial
        exact inserted.moved
  | updatePeerDesired p =>
    rw [effect]
    split
    · exact .inl rfl
    · exact moved_updateRow
  | setStatus peerId status => exact moved_updateRow
  | deletePeer peerId => exact moved_deleteRow
  | ensureWgInterface ifaceName peerId mtu =>
    refine .inl ?_
    simp only [effect, World.setIface, World.addLink]
    split <;> rfl
  | configurePeer ifaceName listenPort pubkey endpoint =>
    rw [effect]
    split <;> exact .inl rfl
  | configureLocalAddress ifaceName address =>
    rw [effect]
    split <;> exact .inl rfl
  | _ => exact .inl rfl

lemma exec_moved {e : Call} {a : Answer e} (h : exec cfg o e w = some (a, w')) :
    Moved w.toTables w'.toTables := by
  cases e with
  | lock l =>
    rw [OperationEffects.exec_lock h]
    exact .inl rfl
  | unlock l =>
    rw [OperationEffects.exec_unlock h]
    exact .inl rfl
  | resolveEndpoint text =>
    cases o <;> simp only [exec, reduceCtorEq, Option.some.injEq, Prod.mk.injEq] at h
    all_goals
      rw [← h.2]
      exact .inl rfl
  | io c =>
    have whole := @moved_effect cfg w c
    rcases exec_tables h with heff | ⟨-, same | heff⟩
    · rwa [heff] at whole
    · exact .inl (by rw [same])
    · rwa [heff]

/-- The same row, perhaps with other columns. -/
def OfRow (r q : Peer) : Prop := q.peerId = r.peerId ∧ q.pair = r.pair

/-- A caller that was told of its change finds the event of it in the queue. -/
lemma exec_reservePeer {p : Peer} (h : exec cfg o (.io (.reservePeer p false)) w = some (.ok true, w')) :
    { p with status := .provisioning } ∈ w'.born ∧
      Recorded w.toTables w'.toTables (OfRow p) := by
  have he := exec_ok h
  simp only [effect] at he
  split at he
  · simp at he
  · simp only [Bool.false_eq_true, ↓reduceIte, Prod.mk.injEq, true_and] at he
    rw [← he]
    exact ⟨List.mem_append_right _ (List.mem_singleton_self _), recorded_enqueue rfl ⟨rfl, rfl⟩⟩

lemma updateRow_done {peerId : UInt32} {f : Peer → Peer} (done : (t.updateRow peerId f).1 = true)
    (hf : ∀ r, OfRow r (f r)) : ∃ r ∈ t.peers, r.peerId = peerId ∧
      Recorded t (t.updateRow peerId f).2 (OfRow r) := by
  rcases updateRow_recorded t peerId f with ⟨hfalse, -⟩ | ⟨r, hr, hid, record⟩
  · rw [hfalse] at done
    cases done
  · exact ⟨r, hr, hid, record.imp fun q hq => hq ▸ hf r⟩

lemma exec_setStatus {peerId : UInt32} {status : PeerStatus}
    (h : exec cfg o (.io (.setStatus peerId status)) w = some (.ok true, w')) :
    ∃ r ∈ w.peers, r.peerId = peerId ∧ Recorded w.toTables w'.toTables (OfRow r) := by
  have he := exec_ok h
  simp only [effect, Prod.mk.injEq, Except.ok.injEq] at he
  obtain ⟨done, rfl⟩ := he
  exact updateRow_done done fun _ => ⟨rfl, rfl⟩

lemma exec_updatePeerDesired {p : Peer}
    (h : exec cfg o (.io (.updatePeerDesired p)) w = some (.ok true, w')) :
    ∃ r ∈ w.peers, r.peerId = p.peerId ∧ Recorded w.toTables w'.toTables (OfRow r) := by
  have he := exec_ok h
  simp only [effect] at he
  split at he
  · simp at he
  · simp only [Prod.mk.injEq, Except.ok.injEq] at he
    obtain ⟨done, rfl⟩ := he
    exact updateRow_done done fun _ => ⟨rfl, rfl⟩

lemma exec_deletePeer {peerId : UInt32}
    (h : exec cfg o (.io (.deletePeer peerId)) w = some (.ok true, w')) :
    ∃ r ∈ w.peers, r.peerId = peerId ∧ Recorded w.toTables w'.toTables (OfRow r) := by
  have he := exec_ok h
  simp only [effect, Prod.mk.injEq, Except.ok.injEq] at he
  obtain ⟨done, rfl⟩ := he
  rcases deleteRow_cases w.toTables peerId with ⟨-, he⟩ | ⟨r, hr, he⟩
  · rw [he] at done
    cases done
  · obtain ⟨hm, hid⟩ := row?_some hr
    rw [he]
    exact ⟨r, hm, hid, recorded_enqueue rfl ⟨rfl, rfl⟩⟩

end Records

section Invariant
variable {μ μ' : ℕ → Turn} {m m' : Turn} {i : ℕ} {opened opened' : PeerChange → Prop}

/-- The event is in the queue, and no pass has listed the peers for it yet. -/
def Opened (w : World) (μ : ℕ → Turn) (e : PeerChange) : Prop :=
  e ∈ w.events ∧ ∀ j c rest, (μ j).phase ≠ .idle → (μ j).changes = c :: rest → e ≠ c

variable (U) in
/-- What the mode of a task says is true of the world. -/
structure TurnOk (w : World) (opened : PeerChange → Prop) (m : Turn) : Prop where
  held : ∀ asn peerName, m.pair = some (asn, peerName) → .peer asn peerName ∈ w.locks
  row : ∀ k, m.row = some k → ∃ pair, m.pair = some pair ∧ ∃ b ∈ w.born, b.peerId = k ∧ b.pair = pair
  owed : m.owes = true → ∃ pair, m.pair = some pair ∧ ∃ e, opened e ∧ e.peer.pair = pair
  copied : ∀ peers, m.phase = .listed peers →
    U.wanted peers = U.wanted w.peers ∨ ∃ e, opened e
  queued : ∀ c ∈ m.changes, c ∈ w.events
  distinct : (m.changes.map PeerChange.eventId).Nodup
  listener : m.op = .syncPendingPeerChanges → m.row = none ∧ m.owes = false ∧
    ∀ pair, m.pair = some pair → ∃ c rest, m.changes = c :: rest ∧ c.peer.pair = pair
  working : m.phase ≠ .idle → m.op = .syncPendingPeerChanges ∧ m.changes ≠ []
  request : m.op ≠ .syncPendingPeerChanges → m.changes = []

variable (U) in
/-- The part shows what the table asks for, or somebody will still see to it. -/
structure Converging (w : World) (μ : ℕ → Turn) : Prop where
  turn : ∀ j, TurnOk U w (Opened w μ) (μ j)
  apart : ∀ j k pair, (μ j).pair = some pair → (μ k).pair = some pair → j = k
  shown : U.shown w = U.wanted w.peers ∨ (∃ e, Opened w μ e) ∨ ∃ j peers, (μ j).phase = .listed peers

lemma Opened.mono {e : PeerChange} (h : Opened w μ e) (events : e ∈ w'.events)
    (modes : (μ' i).phase ≠ .idle → (μ i).phase ≠ .idle ∧ (μ' i).changes = (μ i).changes)
    (others : ∀ j, j ≠ i → μ' j = μ j) : Opened w' μ' e := by
  refine ⟨events, fun j c rest hp hc => ?_⟩
  rcases eq_or_ne j i with rfl | hj
  · obtain ⟨hp', hc'⟩ := modes hp
    exact h.2 j c rest hp' (hc' ▸ hc)
  · rw [others j hj] at hp hc
    exact h.2 j c rest hp hc

/-- A new event is not one that a pass has come to. -/
lemma recorded_opened {P : Peer → Prop} (h : Recorded w.toTables w'.toTables P)
    (ids : Identified w.toTables)
    (queued : ∀ j, (μ' j).phase ≠ .idle → ∀ c ∈ (μ' j).changes, c ∈ w.events) :
    ∃ e, Opened w' μ' e ∧ P e.peer := by
  obtain ⟨e, he, hid, hp⟩ := h
  refine ⟨e, ⟨he, ?_⟩, hp⟩
  rintro j c rest hphase hc rfl
  have := ids.eventNext e (queued j hphase e (by simp [hc]))
  omega

lemma TurnOk.frame (h : TurnOk U w opened m)
    (locks : ∀ asn peerName, m.pair = some (asn, peerName) → .peer asn peerName ∈ w'.locks)
    (born : w.born ⊆ w'.born) (mono : ∀ e, opened e → opened' e)
    (peers : w'.peers = w.peers ∨ ∃ e, opened' e) (queued : ∀ c ∈ m.changes, c ∈ w'.events) :
    TurnOk U w' opened' m where
  held := locks
  row := fun k hk => by
    obtain ⟨pair, hp, b, hb, hid⟩ := h.row k hk
    exact ⟨pair, hp, b, born hb, hid⟩
  owed := fun ho => by
    obtain ⟨pair, hp, e, he, hpair⟩ := h.owed ho
    exact ⟨pair, hp, e, mono e he, hpair⟩
  copied := fun ps hps => by
    rcases h.copied ps hps with hw | ⟨e, he⟩
    · exact peers.imp_left fun hpeers => by rw [hw, hpeers]
    · exact .inr ⟨e, mono e he⟩
  queued := queued
  distinct := h.distinct
  listener := h.listener
  working := h.working
  request := h.request

lemma TurnOk.failed (h : TurnOk U w opened m) : TurnOk U w opened m.failed := by
  unfold Turn.failed
  split
  · exact
      { held := h.held
        row := h.row
        owed := h.owed
        copied := fun _ hp => by cases hp
        queued := h.queued
        distinct := h.distinct
        listener := h.listener
        working := fun hp => absurd rfl hp
        request := h.request }
  · exact h

/-- Task `i` moves to mode `m'`. -/
lemma Converging.build (h : Converging U w μ)
    (others : ∀ j, j ≠ i → TurnOk U w' (Opened w' (Function.update μ i m')) (μ j))
    (own : TurnOk U w' (Opened w' (Function.update μ i m')) m')
    (apart : ∀ pair, m'.pair = some pair → ∀ j, j ≠ i → (μ j).pair ≠ some pair)
    (shown : U.shown w' = U.wanted w'.peers ∨ (∃ e, Opened w' (Function.update μ i m') e) ∨
      ∃ j peers, (Function.update μ i m' j).phase = .listed peers) :
    Converging U w' (Function.update μ i m') := by
  have at_i : Function.update μ i m' i = m' := Function.update_self ..
  have at_j : ∀ j, j ≠ i → Function.update μ i m' j = μ j := fun j hj => Function.update_of_ne hj ..
  refine ⟨fun j => ?_, fun j k pair hj hk => ?_, shown⟩
  · rcases eq_or_ne j i with rfl | hj
    · rwa [at_i]
    · rw [at_j j hj]
      exact others j hj
  · rcases eq_or_ne j i with rfl | hji <;> rcases eq_or_ne k j with rfl | hkj
    · rfl
    · rw [at_i] at hj
      rw [at_j k hkj] at hk
      exact absurd hk (apart pair hj k hkj)
    · rfl
    · rw [at_j j hji] at hj
      rcases eq_or_ne k i with rfl | hki
      · rw [at_i] at hk
        exact absurd hj (apart pair hk j hji)
      · rw [at_j k hki] at hk
        exact h.apart j k pair hj hk

/-- A step of task `i` that closes no event and takes none. -/
lemma Converging.plain (h : Converging U w μ) (ids : Identified w.toTables)
    (grown : Grown w.toTables w'.toTables) (born : w.born ⊆ w'.born)
    (moved : Moved w.toTables w'.toTables)
    (phase : m'.phase ≠ .idle → (μ i).phase ≠ .idle ∧ m'.changes = (μ i).changes)
    (locks : ∀ j, j ≠ i → ∀ asn peerName, (μ j).pair = some (asn, peerName) →
      .peer asn peerName ∈ w'.locks)
    (apart : ∀ pair, m'.pair = some pair → ∀ j, j ≠ i → (μ j).pair ≠ some pair)
    (own : (∀ e, Opened w μ e → Opened w' (Function.update μ i m') e) →
      (∀ P, Recorded w.toTables w'.toTables P → ∃ e, Opened w' (Function.update μ i m') e ∧
        P e.peer) → TurnOk U w' (Opened w' (Function.update μ i m')) m')
    (shown : (∀ e, Opened w μ e → Opened w' (Function.update μ i m') e) →
      (w'.peers = w.peers ∨ ∃ e, Opened w' (Function.update μ i m') e) →
      U.shown w' = U.wanted w'.peers ∨ (∃ e, Opened w' (Function.update μ i m') e) ∨
        ∃ j peers, (Function.update μ i m' j).phase = .listed peers) :
    Converging U w' (Function.update μ i m') := by
  have at_i : Function.update μ i m' i = m' := Function.update_self ..
  have at_j : ∀ j, j ≠ i → Function.update μ i m' j = μ j := fun j hj => Function.update_of_ne hj ..
  have mono : ∀ e, Opened w μ e → Opened w' (Function.update μ i m') e := fun e he => by
    refine he.mono (grown.mem he.1) (fun hp => ?_) at_j
    rw [at_i] at hp ⊢
    exact phase hp
  have new : ∀ P, Recorded w.toTables w'.toTables P →
      ∃ e, Opened w' (Function.update μ i m') e ∧ P e.peer := fun P hr => by
    refine recorded_opened hr ids fun j hp c hc => ?_
    rcases eq_or_ne j i with rfl | hj
    · rw [at_i] at hp hc
      exact (h.turn j).queued c ((phase hp).2 ▸ hc)
    · rw [at_j j hj] at hc
      exact (h.turn j).queued c hc
  have peers : w'.peers = w.peers ∨ ∃ e, Opened w' (Function.update μ i m') e :=
    moved.imp_right fun hr => by
      obtain ⟨e, he, -⟩ := new _ hr
      exact ⟨e, he⟩
  exact h.build (fun j hj => (h.turn j).frame (locks j hj) born mono peers fun c hc =>
    grown.mem ((h.turn j).queued c hc)) (own mono new) apart (shown mono peers)

/-- The part was not written, and the listener kept what it had listed. -/
lemma Converging.unwritten (h : Converging U w μ) (same : U.shown w' = U.shown w)
    (kept : ∀ peers, (μ i).phase = .listed peers → m'.phase = .listed peers ∨
      ∃ e, Opened w' (Function.update μ i m') e)
    (mono : ∀ e, Opened w μ e → Opened w' (Function.update μ i m') e)
    (peers : w'.peers = w.peers ∨ ∃ e, Opened w' (Function.update μ i m') e) :
    U.shown w' = U.wanted w'.peers ∨ (∃ e, Opened w' (Function.update μ i m') e) ∨
      ∃ j peers, (Function.update μ i m' j).phase = .listed peers := by
  rcases h.shown with hs | ⟨e, he⟩ | ⟨j, ps, hps⟩
  · exact peers.imp (fun hp => by rw [same, hs, hp]) Or.inl
  · exact .inr (.inl ⟨e, mono e he⟩)
  · rcases eq_or_ne j i with rfl | hj
    · rcases kept ps hps with hk | ho
      · exact .inr (.inr ⟨j, ps, by rw [Function.update_self, hk]⟩)
      · exact .inr (.inl ho)
    · exact .inr (.inr ⟨j, ps, by rw [Function.update_of_ne hj, hps]⟩)

section Calls
variable {asn : UInt32} {peerName : String}

/-- A call on the database or the kernel that does not write the part. -/
lemma Converging.io {c : Io} {a : Except PeerError c.Value} (h : Converging U w μ)
    (ids : Identified w.toTables) (hx : exec cfg o (.io c) w = some (a, w'))
    (keeps : KeepsEvents (.io c)) (unwritten : U.writes c = none)
    (phase : m'.phase ≠ .idle → (μ i).phase ≠ .idle ∧ m'.changes = (μ i).changes)
    (kept : ∀ peers, (μ i).phase = .listed peers → m'.phase = .listed peers)
    (pair : m'.pair = (μ i).pair)
    (own : (∀ P, Recorded w.toTables w'.toTables P →
        ∃ e, Opened w' (Function.update μ i m') e ∧ P e.peer) →
      TurnOk U w' (Opened w' (Function.update μ i m')) (μ i) →
        TurnOk U w' (Opened w' (Function.update μ i m')) m') :
    Converging U w' (Function.update μ i m') := by
  have grown := exec_grown keeps hx
  have same : U.shown w' = U.shown w := U.shown_frame o (.io c) a w w' hx fun d hd => by
    cases hd
    exact unwritten
  have locks : ∀ j asn peerName, (μ j).pair = some (asn, peerName) →
      .peer asn peerName ∈ w'.locks := fun j asn peerName hj => by
    rw [exec_locks hx]
    exact (h.turn j).held asn peerName hj
  refine h.plain ids grown (exec_born hx) (exec_moved hx) phase (fun j _ => locks j)
    (fun p hp j hj hjp => hj (h.apart j i p hjp (pair ▸ hp))) (fun mono new => ?_) fun mono peers =>
      h.unwritten same (fun ps hps => .inl (kept ps hps)) mono peers
  refine own new ((h.turn i).frame (locks i) (exec_born hx) mono ?_ fun c hc =>
    grown.mem ((h.turn i).queued c hc))
  exact (exec_moved hx).imp_right fun hr => by
    obtain ⟨e, he, -⟩ := new _ hr
    exact ⟨e, he⟩

lemma Converging.io_same {c : Io} {a : Except PeerError c.Value} (h : Converging U w μ)
    (ids : Identified w.toTables) (hx : exec cfg o (.io c) w = some (a, w'))
    (keeps : KeepsEvents (.io c)) (unwritten : U.writes c = none) :
    Converging U w' (Function.update μ i (μ i)) :=
  h.io ids hx keeps unwritten (fun hp => ⟨hp, rfl⟩) (fun _ hp => hp) rfl fun _ ok => ok

lemma Converging.io_failed {c : Io} {a : Except PeerError c.Value} (h : Converging U w μ)
    (ids : Identified w.toTables) (hx : exec cfg o (.io c) w = some (a, w'))
    (keeps : KeepsEvents (.io c)) (unwritten : U.writes c = none) :
    Converging U w' (Function.update μ i (μ i).failed) := by
  have phase : (μ i).failed.phase ≠ .idle → (μ i).phase ≠ .idle ∧ (μ i).failed.changes = (μ i).changes := by
    unfold Turn.failed
    split
    · exact fun hp => absurd rfl hp
    · exact fun hp => ⟨hp, rfl⟩
  refine h.io ids hx keeps unwritten phase (fun ps hps => ?_) ?_ fun _ ok => ok.failed
  · rw [Turn.failed, hps]
    exact hps
  · unfold Turn.failed
    split <;> rfl

/-- A request has read the row of its pair. -/
lemma Converging.getPeer {a : Except PeerError (Option Peer)} (h : Converging U w μ)
    (ids : Identified w.toTables) (hx : exec cfg o (.io (.getPeer asn peerName)) w = some (a, w'))
    (allowed : turnAllowed U (μ i) (.io (.getPeer asn peerName))) :
    Converging U w' (Function.update μ i (turnNext U (μ i) (.io (.getPeer asn peerName)) a)) := by
  have unwritten : U.writes (.getPeer asn peerName) = none := U.writes_other _ (by simp) (by simp)
  cases a with
  | error e => exact h.io_failed ids hx trivial unwritten
  | ok found =>
    cases found with
    | none => exact h.io_same ids hx trivial unwritten
    | some p =>
      obtain ⟨hrow, rfl⟩ : w.rowOf? asn peerName = some p ∧ w = w' := by
        simpa [effect] using exec_ok hx
      obtain ⟨hp, rfl, rfl⟩ := rowOf?_some hrow
      obtain ⟨b, hb, hbp⟩ := ids.rowBorn p hp
      refine h.io ids hx trivial unwritten (fun hp => ⟨hp, rfl⟩) (fun _ hp => hp) rfl fun _ ok => ?_
      exact { ok with
        row := fun k hk => by
          cases hk
          exact ⟨_, allowed.1, b, hb, identity_peerId hbp, identity_pair hbp⟩
        listener := fun hop => absurd hop allowed.2 }

/-- A request that was told of its change owes the event of it. -/
lemma Converging.owe {c : Io} {a : Except PeerError c.Value} (h : Converging U w μ)
    (ids : Identified w.toTables) (hx : exec cfg o (.io c) w = some (a, w'))
    (keeps : KeepsEvents (.io c)) (unwritten : U.writes c = none) {pair : Pair}
    (hpair : (μ i).pair = some pair) (hop : (μ i).op ≠ .syncPendingPeerChanges)
    (record : Recorded w.toTables w'.toTables fun q => q.pair = pair) :
    Converging U w' (Function.update μ i { μ i with owes := true }) := by
  refine h.io ids hx keeps unwritten (fun hp => ⟨hp, rfl⟩) (fun _ hp => hp) rfl fun new ok => ?_
  exact { ok with
    owed := fun _ => ⟨pair, hpair, new _ record⟩
    listener := fun hs => absurd hs hop }

/-- The row whose id the request knows is the row of its pair. -/
lemma TurnOk.row_pair {opened : PeerChange → Prop} (h : TurnOk U w opened m) (ids : Identified w.toTables)
    {r : Peer} (hr : r ∈ w.peers) (hrow : m.row = some r.peerId) : m.pair = some r.pair := by
  obtain ⟨pair, hpair, b, hb, hid, rfl⟩ := h.row _ hrow
  obtain ⟨b', hb', hbr⟩ := ids.rowBorn r hr
  rw [List.inj_on_of_nodup_map ids.bornIds hb hb' (hid.trans (identity_peerId hbr).symm),
    identity_pair hbr] at hpair
  exact hpair

lemma Converging.setStatus {peerId : UInt32} {status : PeerStatus} {a : Except PeerError Bool}
    (h : Converging U w μ) (ids : Identified w.toTables)
    (hx : exec cfg o (.io (.setStatus peerId status)) w = some (a, w')) :
    Converging U w' (Function.update μ i (turnNext U (μ i) (.io (.setStatus peerId status)) a)) := by
  have unwritten : U.writes (.setStatus peerId status) = none := U.writes_other _ (by simp) (by simp)
  rcases a with e | (_ | _)
  · exact h.io_failed ids hx trivial unwritten
  · exact h.io_failed ids hx trivial unwritten
  · by_cases hrow : (μ i).row = some peerId
    · obtain ⟨r, hr, rfl, record⟩ := exec_setStatus hx
      have hop : (μ i).op ≠ .syncPendingPeerChanges := fun hop => by
        rw [((h.turn i).listener hop).1] at hrow
        cases hrow
      simp only [turnNext, hrow, decide_true, Bool.or_true]
      rw [← hrow]
      exact h.owe ids hx trivial unwritten ((h.turn i).row_pair ids hr hrow) hop
        (record.imp fun _ => And.right)
    · simp only [turnNext, hrow, decide_false, Bool.or_false]
      exact h.io_same ids hx trivial unwritten

lemma Converging.updatePeerDesired {q : Peer} {a : Except PeerError Bool}
    (h : Converging U w μ) (ids : Identified w.toTables)
    (hx : exec cfg o (.io (.updatePeerDesired q)) w = some (a, w')) :
    Converging U w' (Function.update μ i (turnNext U (μ i) (.io (.updatePeerDesired q)) a)) := by
  have unwritten : U.writes (.updatePeerDesired q) = none := U.writes_other _ (by simp) (by simp)
  rcases a with e | (_ | _)
  · exact h.io_failed ids hx trivial unwritten
  · exact h.io_same ids hx trivial unwritten
  · by_cases hrow : (μ i).row = some q.peerId
    · obtain ⟨r, hr, hid, record⟩ := exec_updatePeerDesired hx
      have hop : (μ i).op ≠ .syncPendingPeerChanges := fun hop => by
        rw [((h.turn i).listener hop).1] at hrow
        cases hrow
      simp only [turnNext, hrow, decide_true, Bool.or_true]
      rw [← hrow]
      exact h.owe ids hx trivial unwritten ((h.turn i).row_pair ids hr (hid ▸ hrow)) hop
        (record.imp fun _ => And.right)
    · simp only [turnNext, hrow, decide_false, Bool.or_false]
      exact h.io_same ids hx trivial unwritten

lemma Converging.reservePeer {p : Peer} {test : Bool} {a : Except PeerError Bool}
    (h : Converging U w μ) (ids : Identified w.toTables)
    (hx : exec cfg o (.io (.reservePeer p test)) w = some (a, w'))
    (allowed : turnAllowed U (μ i) (.io (.reservePeer p test))) :
    Converging U w' (Function.update μ i (turnNext U (μ i) (.io (.reservePeer p test)) a)) := by
  have unwritten : U.writes (.reservePeer p test) = none := U.writes_other _ (by simp) (by simp)
  rcases a with e | (_ | _)
  · cases test <;> exact h.io_failed ids hx trivial unwritten
  · cases test <;> exact h.io_same ids hx trivial unwritten
  · cases test with
    | true => exact h.io_same ids hx trivial unwritten
    | false =>
      exact h.owe ids hx trivial unwritten allowed.1 allowed.2
        ((exec_reservePeer hx).2.imp fun _ => And.right)

/-- The locks of the shared state and of the ports are nobody's pair. -/
lemma Converging.sharedLock {l : Lock} (h : Converging U w μ) (ids : Identified w.toTables)
    (hl : ∀ asn peerName, l ≠ .peer asn peerName) {locks : List Lock}
    (hlocks : ∀ k, k ≠ l → k ∈ w.locks → k ∈ locks) :
    Converging U { w with locks } (Function.update μ i (μ i)) := by
  have held : ∀ j asn peerName, (μ j).pair = some (asn, peerName) → .peer asn peerName ∈ locks :=
    fun j asn peerName hj => hlocks _ (hl asn peerName).symm ((h.turn j).held asn peerName hj)
  refine h.plain ids (Grown.refl _) (List.Subset.refl _) (.inl rfl) (fun hp => ⟨hp, rfl⟩)
    (fun j _ => held j) (fun p hp j hj hjp => hj (h.apart j i p hjp hp)) (fun mono _ => ?_)
    fun mono peers => h.unwritten (U.shown_locks w locks) (fun _ hp => .inl hp) mono peers
  exact (h.turn i).frame (held i) (List.Subset.refl _) mono (.inl rfl) (h.turn i).queued

lemma Converging.lockPeer (h : Converging U w μ) (ids : Identified w.toTables)
    (hx : exec cfg o (.lock (.peer asn peerName)) w = some ((), w'))
    (allowed : turnAllowed U (μ i) (.lock (.peer asn peerName))) :
    Converging U w' (Function.update μ i { μ i with pair := some (asn, peerName) }) := by
  obtain ⟨hpair, hidle, hhead⟩ := allowed
  have free : .peer asn peerName ∉ w.locks := by
    intro hl
    cases o <;> simp [exec, hl] at hx
  obtain rfl := OperationEffects.exec_lock hx
  refine h.plain ids (Grown.refl _) (List.Subset.refl _) (.inl rfl) (fun hp => ⟨hp, rfl⟩)
    (fun j _ a n hj => List.mem_cons_of_mem _ ((h.turn j).held a n hj)) (fun p hp j _ hjp => ?_)
    (fun mono _ => ?_) fun mono peers => h.unwritten (U.shown_locks w _) (fun _ hp => .inl hp) mono peers
  · cases hp
    exact free ((h.turn j).held asn peerName hjp)
  · exact
      { held := fun a n hp => by
          cases hp
          exact List.mem_cons_self
        row := fun k hk => by
          obtain ⟨pair, hp, -⟩ := (h.turn i).row k hk
          rw [hpair] at hp
          cases hp
        owed := fun ho => by
          obtain ⟨pair, hp, -⟩ := (h.turn i).owed ho
          rw [hpair] at hp
          cases hp
        copied := fun ps hps => by
          rw [show (μ i).phase = .listed ps from hps] at hidle
          cases hidle
        queued := (h.turn i).queued
        distinct := (h.turn i).distinct
        listener := fun hop => ⟨((h.turn i).listener hop).1, ((h.turn i).listener hop).2.1,
          fun pair hp => by
            cases hp
            exact hhead hop⟩
        working := (h.turn i).working
        request := (h.turn i).request }

/-- The mode of a task that gives its pair back. -/
lemma TurnOk.released {opened : PeerChange → Prop} (h : TurnOk U w opened m) :
    TurnOk U w opened m.released := by
  have vacuous : ∀ {P : Pair → Prop}, ∀ pair, (none : Option Pair) = some pair → P pair :=
    fun _ hp => by cases hp
  unfold Turn.released
  split
  · rename_i hw
    exact
      { held := fun _ _ hp => by cases hp
        row := fun _ hk => by cases hk
        owed := fun ho => by cases ho
        copied := fun ps hps => by
          rw [show m.phase = .listed ps from hps] at hw
          cases hw
        queued := h.queued
        distinct := h.distinct
        listener := fun _ => ⟨rfl, rfl, vacuous⟩
        working := h.working
        request := h.request }
  · exact
      { held := fun _ _ hp => by cases hp
        row := fun _ hk => by cases hk
        owed := fun ho => by cases ho
        copied := fun _ hps => by cases hps
        queued := fun c hc => h.queued c (List.mem_of_mem_tail hc)
        distinct := h.distinct.sublist ((List.tail_sublist _).map _)
        listener := fun _ => ⟨rfl, rfl, vacuous⟩
        working := fun hp => absurd rfl hp
        request := fun hop => by simp [h.request hop] }

lemma Converging.unlockPeer (h : Converging U w μ) (ids : Identified w.toTables)
    (hx : exec cfg o (.unlock (.peer asn peerName)) w = some ((), w'))
    (allowed : turnAllowed U (μ i) (.unlock (.peer asn peerName)))
    (alone : (μ i).op = .syncPendingPeerChanges → ∀ j, j ≠ i → (μ j).phase = .idle) :
    Converging U w' (Function.update μ i (μ i).released) := by
  obtain rfl := OperationEffects.exec_unlock hx
  have released_pair : (μ i).released.pair = none := by
    unfold Turn.released
    split <;> rfl
  have phase : (μ i).released.phase ≠ .idle → (μ i).phase ≠ .idle ∧
      (μ i).released.changes = (μ i).changes := by
    unfold Turn.released
    split
    · exact fun hp => ⟨hp, rfl⟩
    · exact fun hp => absurd rfl hp
  have others : ∀ j, j ≠ i → ∀ a n, (μ j).pair = some (a, n) →
      .peer a n ∈ w.locks.erase (.peer asn peerName) := fun j hj a n hp => by
    refine (List.mem_erase_of_ne fun he => ?_).mpr ((h.turn j).held a n hp)
    cases he
    exact hj (h.apart j i _ hp allowed)
  refine h.plain ids (Grown.refl _) (List.Subset.refl _) (.inl rfl) phase others
    (fun p hp => by rw [released_pair] at hp; cases hp) (fun mono _ => ?_) fun mono peers =>
      h.unwritten (U.shown_locks w _) (fun ps hps => .inr ?_) mono peers
  · have here := (h.turn i).released
    exact
      { held := fun a n hp => by
          rw [released_pair] at hp
          cases hp
        row := here.row
        owed := fun ho => by
          obtain ⟨pair, hp, -⟩ := here.owed ho
          rw [released_pair] at hp
          cases hp
        copied := fun ps hps => (here.copied ps hps).imp_right fun ⟨e, he⟩ => ⟨e, mono e he⟩
        queued := here.queued
        distinct := here.distinct
        listener := here.listener
        working := here.working
        request := here.request }
  · obtain ⟨hop, hne⟩ := (h.turn i).working (by rw [hps]; simp)
    obtain ⟨c, rest, hc⟩ := List.exists_cons_of_ne_nil hne
    refine ⟨c, (h.turn i).queued c (by simp [hc]), fun j c' rest' hp => ?_⟩
    rcases eq_or_ne j i with rfl | hj
    · rw [Function.update_self, Turn.released, hps] at hp
      exact absurd rfl hp
    · rw [Function.update_of_ne hj] at hp
      exact absurd (alone hop j hj) hp

/-- The listener takes a snapshot for the event it works on. -/
lemma Converging.list (h : Converging U w μ) (ids : Identified w.toTables)
    (hop : (μ i).op = .syncPendingPeerChanges) (hpair : (μ i).pair.isSome)
    (alone : ∀ j, j ≠ i → (μ j).phase = .idle) :
    Converging U w (Function.update μ i { μ i with phase := .listed (w.listPeers cfg) }) := by
  obtain ⟨pair, hpair⟩ := Option.isSome_iff_exists.mp hpair
  obtain ⟨hrow, howes, hhead⟩ := (h.turn i).listener hop
  obtain ⟨c, rest, hchanges, hc⟩ := hhead pair hpair
  refine h.build (fun j hj => ?_) ?_ (fun p hp j hj hjp => hj (h.apart j i p hjp hp))
    (.inr (.inr ⟨i, _, by rw [Function.update_self]⟩))
  · exact { h.turn j with
      owed := fun ho => by
        obtain ⟨pair', hpair', e, he, hep⟩ := (h.turn j).owed ho
        refine ⟨pair', hpair', e, ⟨he.1, fun k c' rest' hp hc' => ?_⟩, hep⟩
        rcases eq_or_ne k i with rfl | hk
        · rw [Function.update_self] at hc'
          obtain rfl : c = c' := by simpa [hchanges] using congrArg List.head? hc'
          rintro rfl
          exact hj (h.apart j k pair (by rw [hpair', ← hep, hc]) hpair)
        · rw [Function.update_of_ne hk] at hp
          exact absurd (alone k hk) hp
      copied := fun ps hps => by
        rw [alone j hj] at hps
        cases hps }
  · exact { h.turn i with
      owed := fun ho => by
        rw [show (μ i).owes = true from ho] at howes
        cases howes
      copied := fun ps hps => by
        cases hps
        exact .inl (U.wanted_listed _ ids)
      working := fun _ => ⟨hop, by simp [hchanges]⟩ }

lemma Converging.listPeers {a : Except PeerError (List Peer)} (h : Converging U w μ)
    (ids : Identified w.toTables) (hx : exec cfg o (.io .listPeers) w = some (a, w'))
    (allowed : turnAllowed U (μ i) (.io .listPeers))
    (alone : (μ i).op = .syncPendingPeerChanges → ∀ j, j ≠ i → (μ j).phase = .idle) :
    Converging U w' (Function.update μ i (turnNext U (μ i) (.io .listPeers) a)) := by
  have unwritten : U.writes .listPeers = none := U.writes_other _ (by simp) (by simp)
  cases a with
  | error e => exact h.io_failed ids hx trivial unwritten
  | ok peers =>
    by_cases hop : (μ i).op = .syncPendingPeerChanges
    · by_cases hw : (μ i).phase = .written
      · have same : (μ i).lists peers = μ i := by rw [Turn.lists, hop, hw]
        change Converging U w' (Function.update μ i ((μ i).lists peers))
        rw [same]
        exact h.io_same ids hx trivial unwritten
      · obtain ⟨rfl, rfl⟩ : w.listPeers cfg = peers ∧ w = w' := by simpa [effect] using exec_ok hx
        change Converging U w (Function.update μ i ((μ i).lists _))
        rw [lists_of_listener hop hw]
        exact h.list ids hop (allowed hop) (alone hop)
    · change Converging U w' (Function.update μ i ((μ i).lists peers))
      rw [lists_of_ne hop]
      exact h.io_same ids hx trivial unwritten

lemma Converging.listPeerChanges {a : Except PeerError (List PeerChange)} (h : Converging U w μ)
    (ids : Identified w.toTables) (hx : exec cfg o (.io .listPeerChanges) w = some (a, w'))
    (allowed : turnAllowed U (μ i) (.io .listPeerChanges)) :
    Converging U w' (Function.update μ i (turnNext U (μ i) (.io .listPeerChanges) a)) := by
  have unwritten : U.writes .listPeerChanges = none := U.writes_other _ (by simp) (by simp)
  cases a with
  | error e => exact h.io_failed ids hx trivial unwritten
  | ok changes =>
    obtain ⟨rfl, rfl⟩ : w.listPeerChanges = changes ∧ w = w' := by simpa [effect] using exec_ok hx
    obtain ⟨hop, hpair, hidle⟩ := allowed
    refine h.io ids hx trivial unwritten (fun hp => absurd hidle hp) (fun _ hp => hp) rfl
      fun _ ok => ?_
    exact { ok with
      queued := fun c hc => mem_listPeerChanges.mp hc
      distinct := ((List.perm_insertionSort _ _).map _).nodup_iff.mpr ids.eventIds
      listener := fun _ => ⟨(ok.listener hop).1, (ok.listener hop).2.1, fun p hp => by
        rw [show (μ i).pair = some p from hp] at hpair
        cases hpair⟩
      working := fun hp => absurd hidle hp
      request := fun hne => absurd hop hne }

/-- The listener removes the event it is done with. -/
lemma Converging.deletePeerChange {eventId : ℕ} {a : Except PeerError Bool} (h : Converging U w μ)
    (ids : Identified w.toTables)
    (hx : exec cfg o (.io (.deletePeerChange eventId)) w = some (a, w'))
    (allowed : turnAllowed U (μ i) (.io (.deletePeerChange eventId)))
    (alone : ∀ j, j ≠ i → (μ j).phase = .idle ∧ (μ j).changes = []) :
    Converging U w' (Function.update μ i
      { μ i with changes := (μ i).changes.tail, phase := .idle }) := by
  obtain ⟨hpair, hphase, c, rest, hchanges, rfl⟩ := allowed
  have hc : c ∈ w.events := (h.turn i).queued c (by simp [hchanges])
  have keeps : ∀ e ∈ w.events, e ≠ c → e ∈ w'.events := fun e he hne => by
    rcases exec_deletePeerChange hx with ⟨same, -⟩ | ⟨gone, -⟩
    · rwa [same]
    · rw [gone]
      exact mem_deleteChange.mpr ⟨he, fun hid => hne (event_unique ids he hc hid)⟩
  have rows : w'.peers = w.peers ∧ w'.born = w.born := by
    rcases exec_deletePeerChange hx with ⟨same, -⟩ | ⟨gone, -⟩
    · rw [same]
      exact ⟨rfl, rfl⟩
    · rw [gone]
      exact ⟨rfl, rfl⟩
  have locks := exec_locks hx
  have same : U.shown w' = U.shown w :=
    U.shown_frame o (.io (.deletePeerChange c.eventId)) a w w' hx fun d hd => by
      cases hd
      exact U.writes_other _ (by simp) (by simp)
  have mono : ∀ e, Opened w μ e → Opened w' (Function.update μ i
      { μ i with changes := (μ i).changes.tail, phase := .idle }) e := fun e he => by
    refine he.mono (keeps e he.1 (he.2 i c rest (by simp [hphase]) hchanges)) (fun hp => ?_)
      fun j hj => Function.update_of_ne hj ..
    rw [Function.update_self] at hp
    exact absurd rfl hp
  have free : ∀ p, (μ i).pair ≠ some p := fun p hp => by
    rw [hp] at hpair
    cases hpair
  have unlisted : ∀ ps, (μ i).phase ≠ .listed ps := fun ps hps => by
    rw [hphase] at hps
    cases hps
  refine h.build (fun j hj => ?_) ?_ (fun p hp => absurd hp (free p))
    (h.unwritten same (fun ps hps => absurd hps (unlisted ps)) mono (.inl rows.1))
  · refine (h.turn j).frame (fun a n hp => by rw [locks]; exact (h.turn j).held a n hp)
      (by rw [rows.2]; exact List.Subset.refl _) mono (.inl rows.1) fun d hd => ?_
    rw [(alone j hj).2] at hd
    cases hd
  · have distinct := (h.turn i).distinct
    rw [hchanges, List.map_cons, List.nodup_cons] at distinct
    have here := (h.turn i).listener ((h.turn i).working (by simp [hphase])).1
    exact
      { held := fun a n hp => absurd hp (free (a, n))
        row := fun k hk => by
          rw [show (μ i).row = some k from hk] at here
          cases here.1
        owed := fun ho => by
          rw [show (μ i).owes = true from ho] at here
          cases here.2.1
        copied := fun _ hps => by cases hps
        queued := fun d hd => by
          simp only [hchanges, List.tail_cons] at hd
          refine keeps d ((h.turn i).queued d (by simp [hchanges, hd])) ?_
          rintro rfl
          exact distinct.1 (List.mem_map_of_mem hd)
        distinct := by
          simp only [hchanges, List.tail_cons]
          exact distinct.2
        listener := fun _ => ⟨here.1, here.2.1, fun p hp => absurd hp (free p)⟩
        working := fun hp => absurd rfl hp
        request := fun hop => by simp [(h.turn i).request hop] }

/-- The calls that overwrite a part of the world. -/
def Overwrites : Io → Prop
  | .runNftBatch _ | .syncBirdFiles .. => True
  | _ => False

lemma exec_overwrites {c : Io} {a : Except PeerError c.Value} (hc : Overwrites c)
    (hx : exec cfg o (.io c) w = some (a, w')) : w'.toTables = w.toTables := by
  have same : (effect cfg c w).2.toTables = w.toTables := by
    cases c <;> first | exact hc.elim | rfl
  rcases exec_tables hx with he | ⟨-, ht | ht⟩
  · rwa [he] at same
  · exact ht
  · rwa [same] at ht

lemma TurnOk.wrote {opened : PeerChange → Prop} (h : TurnOk U w opened m) :
    TurnOk U w opened m.wrote := by
  unfold Turn.wrote
  split
  · rename_i ps hps
    exact { h with
      copied := fun _ hp => by cases hp
      working := fun _ => h.working (by simp [hps]) }
  · exact h

/-- Why a write does no harm: an event is still to come, or the listener writes what it has listed for
one, or the value is what the table asks for and nothing else can come of the call. -/
def Harmless (U : Outlet cfg X) (w w' : World) (μ : ℕ → Turn) (m : Turn) (x : X) : Prop :=
  (∃ e, Opened w μ e) ∨ (∃ peers, m.phase = .listed peers ∧ x = U.wanted peers) ∨
    (x = U.wanted w.peers ∧ m.phase = .idle ∧ (U.shown w' = U.shown w ∨ U.shown w' = x))

lemma Converging.overwrite {c : Io} {a : Except PeerError c.Value} (h : Converging U w μ)
    (ids : Identified w.toTables) (hx : exec cfg o (.io c) w = some (a, w')) (hc : Overwrites c)
    (phase : m'.phase ≠ .idle → (μ i).phase ≠ .idle ∧ m'.changes = (μ i).changes)
    (pair : m'.pair = (μ i).pair)
    (own : ∀ O, TurnOk U w' O (μ i) → TurnOk U w' O m')
    (shown : (∀ e, Opened w μ e → Opened w' (Function.update μ i m') e) →
      U.shown w' = U.wanted w.peers ∨ (∃ e, Opened w' (Function.update μ i m') e) ∨
        ∃ j peers, (Function.update μ i m' j).phase = .listed peers) :
    Converging U w' (Function.update μ i m') := by
  have tables := exec_overwrites hc hx
  have keeps : KeepsEvents (.io c) := by cases c <;> first | exact hc.elim | trivial
  have locks : ∀ j asn peerName, (μ j).pair = some (asn, peerName) →
      .peer asn peerName ∈ w'.locks := fun j asn peerName hj => by
    rw [exec_locks hx]
    exact (h.turn j).held asn peerName hj
  refine h.plain ids (exec_grown keeps hx) (exec_born hx) (exec_moved hx) phase
    (fun j _ => locks j) (fun p hp j hj hjp => hj (h.apart j i p hjp (pair ▸ hp)))
    (fun mono _ => own _ ?_) fun mono _ => ?_
  · refine (h.turn i).frame (locks i) (exec_born hx) mono (.inl (by rw [tables])) fun d hd => ?_
    rw [tables]
    exact (h.turn i).queued d hd
  · rw [tables]
    exact shown mono

/-- A write that works. -/
lemma Converging.wrote {c : Io} {v : c.Value} {x : X} (h : Converging U w μ)
    (ids : Identified w.toTables) (hx : exec cfg o (.io c) w = some (.ok v, w')) (hc : Overwrites c)
    (writes : U.writes c = some x) (harmless : Harmless U w w' μ (μ i) x) :
    Converging U w' (Function.update μ i (μ i).wrote) := by
  have now : U.shown w' = x := U.shown_write o c v w w' x hx writes
  refine h.overwrite ids hx hc ?_ ?_ (fun _ ok => ok.wrote) fun mono => ?_
  · unfold Turn.wrote
    split
    · exact fun _ => ⟨by simp [*], rfl⟩
    · exact fun hp => ⟨hp, rfl⟩
  · unfold Turn.wrote
    split <;> rfl
  · rcases harmless with ⟨e, he⟩ | ⟨peers, hp, rfl⟩ | ⟨rfl, -⟩
    · exact .inr (.inl ⟨e, mono e he⟩)
    · rcases (h.turn i).copied peers hp with hw | ⟨e, he⟩
      · exact .inl (now.trans hw)
      · exact .inr (.inl ⟨e, mono e he⟩)
    · exact .inl now

/-- A write that fails may leave the part in any state; whoever made it is not done. -/
lemma Converging.writeFailed {c : Io} {error : PeerError} {x : X} (h : Converging U w μ)
    (ids : Identified w.toTables) (hx : exec cfg o (.io c) w = some (.error error, w'))
    (hc : Overwrites c) (harmless : Harmless U w w' μ (μ i) x) :
    Converging U w' (Function.update μ i (μ i).failed) := by
  refine h.overwrite ids hx hc ?_ ?_ (fun _ ok => ok.failed) fun mono => ?_
  · unfold Turn.failed
    split
    · exact fun hp => absurd rfl hp
    · exact fun hp => ⟨hp, rfl⟩
  · unfold Turn.failed
    split <;> rfl
  · rcases harmless with ⟨e, he⟩ | ⟨peers, hp, -⟩ | ⟨rfl, hidle, same | now⟩
    · exact .inr (.inl ⟨e, mono e he⟩)
    · refine .inr (.inr ⟨i, peers, ?_⟩)
      rw [Function.update_self, Turn.failed, hp]
      exact hp
    · have tables := exec_overwrites hc hx
      have idle : ∀ ps, (μ i).phase ≠ .listed ps := fun ps hps => by
        rw [hidle] at hps
        cases hps
      have old := h.unwritten same (fun ps hps => absurd hps (idle ps)) mono (.inl (by rw [tables]))
      rwa [tables] at old
    · exact .inl now

lemma Converging.runNftBatch {ports : List UInt16} {a : Except PeerError Unit} (h : Converging U w μ)
    (ids : Identified w.toTables) (hx : exec cfg o (.io (.runNftBatch ports)) w = some (a, w'))
    (harmless : ∀ x, U.writes (.runNftBatch ports) = some x → Harmless U w w' μ (μ i) x) :
    Converging U w' (Function.update μ i (turnNext U (μ i) (.io (.runNftBatch ports)) a)) := by
  cases hw : U.writes (.runNftBatch ports) with
  | none =>
    cases a with
    | error e => exact h.io_failed ids hx trivial hw
    | ok u =>
      simp only [turnNext, hw, Option.isSome_none, Bool.false_eq_true, ↓reduceIte]
      exact h.io_same ids hx trivial hw
  | some x =>
    cases a with
    | error e => exact h.writeFailed ids hx trivial (harmless x hw)
    | ok u =>
      simp only [turnNext, hw, Option.isSome_some, ↓reduceIte]
      exact h.wrote ids hx trivial hw (harmless x hw)

lemma Converging.syncBirdFiles {peers : List Peer} {force : Bool} {a : Except PeerError Unit}
    (h : Converging U w μ) (ids : Identified w.toTables)
    (hx : exec cfg o (.io (.syncBirdFiles peers force)) w = some (a, w'))
    (harmless : ∀ x, U.writes (.syncBirdFiles peers force) = some x → Harmless U w w' μ (μ i) x) :
    Converging U w' (Function.update μ i (turnNext U (μ i) (.io (.syncBirdFiles peers force)) a)) := by
  cases hw : U.writes (.syncBirdFiles peers force) with
  | none =>
    cases a with
    | error e => exact h.io_failed ids hx trivial hw
    | ok u =>
      simp only [turnNext, hw, Option.isSome_none, Bool.false_eq_true, ↓reduceIte]
      exact h.io_same ids hx trivial hw
  | some x =>
    cases a with
    | error e => exact h.writeFailed ids hx trivial (harmless x hw)
    | ok u =>
      simp only [turnNext, hw, Option.isSome_some, ↓reduceIte]
      exact h.wrote ids hx trivial hw (harmless x hw)

/-- One call of one task. -/
theorem Converging.call {e : Call} {a : Answer e} (h : Converging U w μ) (ids : Identified w.toTables)
    (hx : exec cfg o e w = some (a, w')) (allowed : turnAllowed U (μ i) e)
    (alone : (μ i).op = .syncPendingPeerChanges →
      ∀ j, j ≠ i → (μ j).phase = .idle ∧ (μ j).changes = [])
    (harmless : ∀ c x, e = .io c → U.writes c = some x → Harmless U w w' μ (μ i) x) :
    Converging U w' (Function.update μ i (turnNext U (μ i) e a)) := by
  have idle : (μ i).op = .syncPendingPeerChanges → ∀ j, j ≠ i → (μ j).phase = .idle :=
    fun hop j hj => (alone hop j hj).1
  cases e with
  | lock l =>
    have shared : (∀ asn peerName, l ≠ .peer asn peerName) →
        Converging U w' (Function.update μ i (μ i)) := fun hl => by
      rw [OperationEffects.exec_lock hx]
      exact h.sharedLock ids hl fun k _ hk => List.mem_cons_of_mem _ hk
    cases l with
    | peer asn peerName => exact h.lockPeer ids hx allowed
    | _ => exact shared (by simp)
  | unlock l =>
    have shared : (∀ asn peerName, l ≠ .peer asn peerName) →
        Converging U w' (Function.update μ i (μ i)) := fun hl => by
      rw [OperationEffects.exec_unlock hx]
      exact h.sharedLock ids hl fun k hk hm => (List.mem_erase_of_ne hk).mpr hm
    cases l with
    | peer asn peerName => exact h.unlockPeer ids hx allowed idle
    | _ => exact shared (by simp)
  | resolveEndpoint text =>
    have same : w' = w := by
      cases o <;> simp only [exec, reduceCtorEq, Option.some.injEq, Prod.mk.injEq] at hx <;>
        exact hx.2.symm
    rw [same]
    exact h.sharedLock (l := .nft) ids (by simp) fun _ _ hk => hk
  | io c =>
    have other : (∀ ports, c ≠ .runNftBatch ports) → (∀ peers force, c ≠ .syncBirdFiles peers force) →
        U.writes c = none := U.writes_other c
    cases c with
    | getPeer asn peerName => exact h.getPeer ids hx allowed
    | listPeers => exact h.listPeers ids hx allowed idle
    | listPeerChanges => exact h.listPeerChanges ids hx allowed
    | deletePeerChange eventId =>
      have hop := ((h.turn i).working (by rw [allowed.2.1]; simp)).1
      have whole := h.deletePeerChange ids hx allowed (alone hop)
      rcases a with e | (_ | _) <;> exact whole
    | reservePeer p test => exact h.reservePeer ids hx allowed
    | updatePeerDesired q => exact h.updatePeerDesired ids hx
    | setStatus peerId status => exact h.setStatus ids hx
    | runNftBatch ports => exact h.runNftBatch ids hx fun x hw => harmless _ x rfl hw
    | syncBirdFiles peers force => exact h.syncBirdFiles ids hx fun x hw => harmless _ x rfl hw
    | deletePeer peerId =>
      have unwritten := other (by simp) (by simp)
      rcases a with e | (_ | _)
      · exact h.io_failed ids hx trivial unwritten
      · exact h.io_failed ids hx trivial unwritten
      · exact h.io_same ids hx trivial unwritten
    | _ =>
      have unwritten := other (by simp) (by simp)
      cases a with
      | error e => exact h.io_failed ids hx trivial unwritten
      | ok v => exact h.io_same ids hx trivial unwritten

end Calls

end Invariant

section Service
variable {s s' : System} {l : Label} {μ : ℕ → Turn} {op : Op} {m : Turn}

/-- No two passes of the listener are in flight. -/
def Single (s : System) : Prop :=
  ∀ (i j : ℕ) p q, s.tasks[i]? = some (.syncPendingPeerChanges, p) →
    s.tasks[j]? = some (.syncPendingPeerChanges, q) → inFlight (.syncPendingPeerChanges, p) →
    inFlight (.syncPendingPeerChanges, q) → i = j

lemma single_of_quiet (h : s.quiet) : Single s := fun i j p q hi _ hp _ => by
  rw [h _ (List.mem_of_getElem? hi)] at hp
  cases hp

/-- A task that is in flight after a step was in flight before it, or has just been started. -/
lemma inFlight_before (hs : step cfg l s = some s') (hl : l ≠ .restart) {i : ℕ}
    {p : Program Call Answer Reply} (hi : s'.tasks[i]? = some (op, p)) (hp : inFlight (op, p)) :
    (∃ q, s.tasks[i]? = some (op, q) ∧ inFlight (op, q)) ∨
      i = s.tasks.length ∧ s.tasks[i]? = none ∧ l = .start op := by
  cases l with
  | task j o =>
    obtain ⟨t, e, next, a, w', hj, -, rfl⟩ := Pool.stepTask_cases hs
    by_cases hij : j = i
    · subst j
      have hlen := (List.getElem?_eq_some_iff.mp hj).1
      rw [List.getElem?_set_self hlen, Option.some.injEq, Prod.mk.injEq] at hi
      obtain ⟨rfl, rfl⟩ := hi
      exact .inl ⟨_, hj, rfl⟩
    · rw [List.getElem?_set_ne hij] at hi
      exact .inl ⟨p, hi, hp⟩
  | start new =>
    simp only [step, Option.ite_none_right_eq_some, Option.some.injEq] at hs
    obtain ⟨-, rfl⟩ := hs
    rcases Nat.lt_trichotomy i s.tasks.length with hlt | rfl | hgt
    · exact .inl ⟨p, by simpa [Pool.spawn, List.getElem?_append_left hlt] using hi, hp⟩
    · simp only [Pool.spawn, List.getElem?_concat_length, Option.some.injEq, Prod.mk.injEq] at hi
      exact .inr ⟨rfl, by simp, by rw [hi.1]⟩
    · have hlen : (s.tasks ++ [(new, program cfg new)]).length ≤ i := by simpa using hgt
      simp [Pool.spawn, List.getElem?_eq_none hlen] at hi
  | sqlStatus peerId status =>
    cases hs
    exact .inl ⟨p, hi, hp⟩
  | sqlDelete peerId =>
    cases hs
    exact .inl ⟨p, hi, hp⟩
  | restart => exact absurd rfl hl

lemma single_step (h : Single s) (hs : step cfg l s = some s') (hl : l ≠ .restart) : Single s' := by
  have fresh : ∀ (i : ℕ) q, l = .start .syncPendingPeerChanges →
      s.tasks[i]? = some (.syncPendingPeerChanges, q) →
      inFlight (.syncPendingPeerChanges, q) → False := fun i q hstart hi hq => by
    subst hstart
    simp only [step, Option.ite_none_right_eq_some, Bool.and_eq_true] at hs
    have admitted := hs.1.2
    simp only [System.admits, List.all_eq_true] at admitted
    have := admitted _ (List.mem_of_getElem? hi)
    simp [hq] at this
  intro i j p q hi hj hp hq
  rcases inFlight_before hs hl hi hp with ⟨p', hi', hp'⟩ | ⟨rfl, -, hstart⟩ <;>
    rcases inFlight_before hs hl hj hq with ⟨q', hj', hq'⟩ | ⟨rfl, -, hstart'⟩
  · exact h i j p' q' hi' hj' hp' hq'
  · exact (fresh i p' hstart' hi' hp').elim
  · exact (fresh j q' hstart hj' hq').elim
  · rfl

variable (U) in
/-- The tasks keep to the discipline, and the part converges. -/
def Attended : System → Prop := Keeps (turns U) (fun op m _ => Ended op m) (Converging U)

lemma turns_live (m : Turn) (e : Call) : ∃ a, (turns U).answer m e a := by
  cases e with
  | lock l => exact ⟨(), trivial⟩
  | unlock l => exact ⟨(), trivial⟩
  | resolveEndpoint text => exact ⟨.error .registryMismatch, trivial⟩
  | io c => exact ⟨.error .registryMismatch, trivial⟩

lemma turnNext_op (m : Turn) (e : Call) (a : Answer e) : (turnNext U m e a).op = m.op := by
  have released : m.released.op = m.op := by
    unfold Turn.released
    split <;> rfl
  have lists : ∀ peers, (m.lists peers).op = m.op := fun peers => by
    unfold Turn.lists
    split <;> rfl
  have wrote : m.wrote.op = m.op := by
    unfold Turn.wrote
    split <;> rfl
  have failed : m.failed.op = m.op := by
    unfold Turn.failed
    split <;> rfl
  have writes : ∀ b : Bool, (if b then m.wrote else m).op = m.op := fun b => by
    cases b
    · rfl
    · exact wrote
  cases e with
  | lock l => cases l <;> rfl
  | unlock l =>
    cases l with
    | peer asn peerName => exact released
    | _ => rfl
  | resolveEndpoint text => rfl
  | io c =>
    cases c with
    | getPeer asn peerName => rcases a with e | (_ | p) <;> first | exact failed | rfl
    | reservePeer p test =>
      rcases a with e | (_ | _) <;> cases test <;> first | exact failed | rfl
    | updatePeerDesired q => rcases a with e | (_ | _) <;> first | exact failed | rfl
    | setStatus peerId status => rcases a with e | (_ | _) <;> first | exact failed | rfl
    | deletePeer peerId => rcases a with e | (_ | _) <;> first | exact failed | rfl
    | listPeers =>
      rcases a with e | peers
      · exact failed
      · exact lists peers
    | deletePeerChange eventId => rcases a with e | (_ | _) <;> rfl
    | runNftBatch ports =>
      rcases a with e | u
      · exact failed
      · exact writes _
    | syncBirdFiles peers force =>
      rcases a with e | u
      · exact failed
      · exact writes _
    | _ => rcases a with e | v <;> first | exact failed | rfl

lemma turn_op {p : Program Call Answer Reply} (h : Follows (turns U) p m fun m' _ => Ended op m') :
    m.op = op :=
  Follows.tag_eq Turn.op (h.mono fun _ _ h => h.op_eq) turnNext_op turns_live

/-- A task that is not a pass in flight works on no event. -/
lemma TurnOk.resting {w : World} {opened : PeerChange → Prop} {i : ℕ} (h : TurnOk U w opened (μ i))
    (hob : Obeys (turns U) (fun op m _ => Ended op m) μ s)
    (hi : ∀ p, s.tasks[i]? = some (.syncPendingPeerChanges, p) →
      inFlight (.syncPendingPeerChanges, p) = false) : (μ i).phase = .idle ∧ (μ i).changes = [] := by
  by_cases hop : (μ i).op = .syncPendingPeerChanges
  · cases htask : s.tasks[i]? with
    | none =>
      rw [hob.resting i (List.getElem?_eq_none_iff.mp htask)]
      exact ⟨rfl, rfl⟩
    | some task =>
      obtain ⟨op, p⟩ := task
      obtain rfl : op = .syncPendingPeerChanges := (turn_op (hob.follows i op p htask)).symm.trans hop
      cases p with
      | done a => exact ⟨(hob.ended htask).idle, (hob.ended htask).changes⟩
      | call e next => exact absurd (hi _ htask) (by simp [inFlight])
  · refine ⟨?_, h.request hop⟩
    by_contra hphase
    exact hop (h.working hphase).1

lemma Converging.withTables {t : Tables} {w : World} (h : Converging U w μ)
    (ids : Identified w.toTables) (grown : Grown w.toTables t) (born : w.born ⊆ t.born)
    (moved : Moved w.toTables t) : Converging U (w.withTables t) μ := by
  have same : Converging U (w.withTables t) (Function.update μ 0 (μ 0)) := h.plain ids grown born moved
    (fun hp => ⟨hp, rfl⟩) (fun j _ a n hj => (h.turn j).held a n hj)
    (fun p hp j hj hjp => hj (h.apart j 0 p hjp hp))
    (fun mono new => (h.turn 0).frame (h.turn 0).held born mono
      (moved.imp_right fun hr => by
        obtain ⟨e, he, -⟩ := new _ hr
        exact ⟨e, he⟩)
      fun c hc => grown.mem ((h.turn 0).queued c hc))
    fun mono peers => h.unwritten (U.shown_tables w t) (fun _ hp => .inl hp) mono peers
  rwa [Function.update_eq_self] at same

/-- A new task knows nothing yet. -/
lemma TurnOk.start {w : World} {opened : PeerChange → Prop} : TurnOk U w opened (.start op) where
  held := fun _ _ hp => by cases hp
  row := fun _ hk => by cases hk
  owed := fun ho => by cases ho
  copied := fun _ hps => by cases hps
  queued := fun c hc => by cases hc
  distinct := List.nodup_nil
  listener := fun _ => ⟨rfl, rfl, fun _ hp => by cases hp⟩
  working := fun hp => absurd rfl hp
  request := fun _ => rfl

lemma Converging.start {w : World} {i : ℕ} (h : Converging U w μ) (ids : Identified w.toTables)
    (hi : μ i = .start .recover) : Converging U w (Function.update μ i (.start op)) := by
  refine h.plain ids (Grown.refl _) (List.Subset.refl _) (.inl rfl) (fun hp => absurd rfl hp)
    (fun j _ a n hj => (h.turn j).held a n hj) (fun p hp => by cases hp) (fun _ _ => .start)
    fun mono peers => h.unwritten rfl (fun ps hps => by rw [hi] at hps; cases hps) mono peers

/-- An event is in the queue that no pass of the listener has come to. -/
def Covered (s : System) : Prop :=
  1 < s.world.events.length ∨
    s.world.events ≠ [] ∧ ∀ task ∈ s.tasks, task.1 = .syncPendingPeerChanges → inFlight task = false

variable (U) in
/-- The reconciler writes what the table then asks for, or an event is still to come. -/
def Timely (s : System) : Label → Prop
  | .task i _ => ∀ ports next x, s.tasks[i]? = some (.syncNftPorts, .call (.io (.runNftBatch ports)) next) →
    U.writes (.runNftBatch ports) = some x → x = U.wanted s.world.peers ∨ Covered s
  | _ => True

lemma opened_of_idle {w : World} {e : PeerChange} (he : e ∈ w.events)
    (idle : ∀ j, (μ j).phase = .idle) : Opened w μ e :=
  ⟨he, fun j _ _ hp => absurd (idle j) hp⟩

/-- One pass can have come to one event only. -/
lemma Covered.opened (h : Covered s) (ids : Identified s.world.toTables) (single : Single s)
    (hob : Obeys (turns U) (fun op m _ => Ended op m) μ s) (hJ : Converging U s.world μ) :
    ∃ e, Opened s.world μ e := by
  by_cases idle : ∀ j, (μ j).phase = .idle
  · have some_event : s.world.events ≠ [] := by
      rcases h with h | ⟨h, -⟩
      · exact List.ne_nil_of_length_pos (by omega)
      · exact h
    obtain ⟨e, he⟩ := List.exists_mem_of_ne_nil _ some_event
    exact ⟨e, opened_of_idle he idle⟩
  · obtain ⟨j, hj⟩ := not_forall.mp idle
    have flying : ∃ p, s.tasks[j]? = some (.syncPendingPeerChanges, p) ∧
        inFlight (.syncPendingPeerChanges, p) := by
      by_contra none
      refine hj ((hJ.turn j).resting hob fun p hp => ?_).1
      by_contra hfly
      exact none ⟨p, hp, by simpa using hfly⟩
    obtain ⟨p, hp, hfly⟩ := flying
    have only : ∀ k, (μ k).phase ≠ .idle → k = j := fun k hk => by
      by_contra hkj
      refine hk ((hJ.turn k).resting hob fun q hq => ?_).1
      by_contra hq'
      exact hkj (single k j q p hq hp (by simpa using hq') hfly)
    rcases h with h | ⟨-, h⟩
    · obtain ⟨c, rest, hc⟩ := List.exists_cons_of_ne_nil ((hJ.turn j).working hj).2
      obtain ⟨e, he, hne⟩ : ∃ e ∈ s.world.events, e ≠ c := by
        by_contra same
        push Not at same
        match hev : s.world.events, h with
        | a :: b :: _, _ =>
          have nodup := ids.eventIds
          rw [hev] at same nodup
          rw [same a (by simp), same b (by simp)] at nodup
          simp at nodup
      refine ⟨e, he, fun k d rest' hk hd => ?_⟩
      obtain rfl := only k hk
      rw [hc, List.cons.injEq] at hd
      exact hd.1 ▸ hne
    · rw [h _ (List.mem_of_getElem? hp) rfl] at hfly
      cases hfly

/-- A write that the discipline allows does no harm, if the reconciler comes in time. -/
lemma Converging.harmless {i : ℕ} {c : Io} {next : Answer (.io c) → Program Call Answer Reply}
    {a : Except PeerError c.Value} {w' : World} {x : X}
    (hJ : Converging U s.world μ) (ids : Identified s.world.toTables)
    (single : Single s) (hob : Obeys (turns U) (fun op m _ => Ended op m) μ s)
    (ht : s.tasks[i]? = some (op, .call (.io c) next)) (timely : Timely U s (.task i o))
    (hx : exec cfg o (.io c) s.world = some (a, w')) (hw : U.writes c = some x) :
    Harmless U s.world w' μ (μ i) x := by
  have allowed : turnAllowed U (μ i) (.io c) := hob.allowed ht
  have may : mayWrite U (μ i) x → Harmless U s.world w' μ (μ i) x := by
    rintro (owes | listed)
    · obtain ⟨_, _, e, he, _⟩ := (hJ.turn i).owed owes
      exact .inl ⟨e, he⟩
    · exact .inr (.inl listed)
  by_cases hnft : ∃ ports, c = .runNftBatch ports
  · obtain ⟨ports, rfl⟩ := hnft
    rcases allowed x hw with hop | h
    · obtain rfl : op = .syncNftPorts := (turn_op (hob.follows i op _ ht)).symm.trans hop
      rcases timely ports next x ht hw with fresh | covered
      · refine .inr (.inr ⟨fresh, ?_, U.shown_batch o ports a _ _ x hx hw⟩)
        by_contra hphase
        have := ((hJ.turn i).working hphase).1
        rw [hop] at this
        cases this
      · exact .inl (covered.opened ids single hob hJ)
    · exact may h
  · by_cases hbird : ∃ peers force, c = .syncBirdFiles peers force
    · obtain ⟨peers, force, rfl⟩ := hbird
      exact may (allowed x hw)
    · push Not at hnft hbird
      rw [U.writes_other c hnft hbird] at hw
      cases hw

theorem attended_step (h : Attended U s) (ids : Identified s.world.toTables) (single : Single s)
    (hl : l ≠ .restart) (timely : Timely U s l) (hs : step cfg l s = some s') : Attended U s' := by
  refine obeying_step h hs ?_ ?_ ?_ ?_ (fun hr => absurd hr hl)
  · rintro i o rfl μ op e next a w' hob ht hJ hx
    refine ⟨trivial, hJ.call ids hx (hob.allowed ht) (fun hop j hj => ?_) ?_⟩
    · obtain rfl : op = .syncPendingPeerChanges := (turn_op (hob.follows i op _ ht)).symm.trans hop
      refine (hJ.turn j).resting hob fun q hq => ?_
      by_contra hfly
      exact hj (single j i q _ hq ht (by simpa using hfly) rfl)
    · rintro c x rfl hw
      exact hJ.harmless ids single hob ht timely hx hw
  · rintro op rfl - hadmit μ hob hJ
    have hop : op ≠ .recover := by
      rintro rfl
      cases hadmit
    exact ⟨.start op, follows_program hop, hJ.start ids (hob.resting _ le_rfl)⟩
  · rintro peerId status rfl μ - hJ
    exact hJ.withTables ids (grown_updateRow ..) (by rw [updateRow_born]; exact List.Subset.refl _)
      moved_updateRow
  · rintro peerId rfl μ - hJ
    exact hJ.withTables ids (grown_deleteRow ..) (by rw [deleteRow_born]; exact List.Subset.refl _)
      moved_deleteRow

/-- A quiet service that shows what the table asks for is attended to. -/
lemma attended_of_quiet (quiet : s.quiet) (shown : U.shown s.world = U.wanted s.world.peers) :
    Attended U s := by
  refine ⟨fun i => .start ((s.tasks[i]?.map Prod.fst).getD .recover), ⟨fun i op p hi => ?_,
    fun i hi => ?_⟩, fun _ => .start, fun _ _ _ hp => (by cases hp), .inl shown⟩
  · cases p with
    | done a =>
      rw [hi]
      exact ⟨rfl, rfl, rfl⟩
    | call e next =>
      have := quiet _ (List.mem_of_getElem? hi)
      cases this
  · simp [List.getElem?_eq_none hi, turns]

/-- Nothing is left to do. -/
lemma Attended.shown (h : Attended U s) (quiet : s.quiet) (empty : s.world.events = []) :
    U.shown s.world = U.wanted s.world.peers := by
  obtain ⟨μ, hob, hJ⟩ := h
  have idle : ∀ j, (μ j).phase = .idle := fun j =>
    ((hJ.turn j).resting hob fun p hp => quiet _ (List.mem_of_getElem? hp)).1
  rcases hJ.shown with hs | ⟨e, he⟩ | ⟨j, peers, hp⟩
  · exact hs
  · exact absurd he.1 (by simp [empty])
  · rw [idle j] at hp
    cases hp

/-- From a quiet state that shows what the table asks for: along every run without a restart in which
the reconciler comes in time, whenever all is quiet again and no event is left the part shows what the
table then asks for. -/
theorem converges {w : World} (ids : Identified w.toTables)
    (before : Reaches (step cfg) (fun _ _ => True) (System.stopped w) s)
    (quiet₀ : s.quiet) (shown₀ : U.shown s.world = U.wanted s.world.peers)
    (run : Reaches (step cfg) (fun u l => l ≠ .restart ∧ Timely U u l) s s')
    (quiet : s'.quiet) (empty : s'.world.events = []) :
    U.shown s'.world = U.wanted s'.world.peers := by
  have attended : Attended U s' := by
    refine run.invariant_with (attended_of_quiet quiet₀ shown₀)
      (K := fun u => Identified u.world.toTables ∧ Single u) (fun u hu => ⟨?_, ?_⟩)
      fun u l v hK hu hl hs => attended_step hu hK.1 hK.2 hl.1 hl.2 hs
    · exact identified_reaches ids (before.trans (hu.mono fun _ _ _ => trivial))
    · exact hu.invariant (single_of_quiet quiet₀) fun u l v h hl hs => single_step h hs hl.1
  exact attended.shown quiet empty

end Service

end Autopeer.SnapshotConvergence
