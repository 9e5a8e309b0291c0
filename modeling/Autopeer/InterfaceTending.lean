import Autopeer.InterfaceTurns
import Autopeer.NamedInterfaces

/-! What the interfaces owe to the rows, while tasks are at work on both. An id is settled, or an event of
it is in the queue that no pass has come to, or the listener is at work on it; every call keeps that. -/
namespace Autopeer.InterfaceTending
open PeerData ProgramTree ProgramPool
open ManagerWorld ManagerPrograms ManagerSystem ManagerFootprints ManagerEffects ManagerRules
open OperationEffects InterfaceEffects TableIdentity TableDiscipline TableInvariant ChangeDelivery
open InterfaceTurns NamedInterfaces
open SnapshotConvergence (Recorded exec_setStatus exec_deletePeer exec_updatePeerDesired exec_reservePeer)

variable {cfg : Config} {o : Outcome} {w w' : World} {t : Tables} {p : Peer} {k peerId : UInt32}

/-- An id needs nothing: its row is Active and the interface is set up for it, or its row is Disabled or
missing and there is no interface. -/
def Settled (w : World) (k : UInt32) : Prop :=
  match w.row? k with
  | some p => p.status = .active ∧ Configured p w ∨
      p.status = .disabled ∧ w.hasIface (wgpName k) = false
  | none => w.hasIface (wgpName k) = false

/-- What the listener has done with the interface is there. -/
def Reached (w : World) (k : UInt32) : Option Peer → Stage → Prop
  | _, .untouched => True
  | some p, .linked => Linked p w
  | some p, .keyed => Keyed p w
  | some p, .addressed => Configured p w
  | _, .removed => w.hasIface (wgpName k) = false
  | _, _ => False

variable {μ μ' : ℕ → Hand} {m m' : Hand} {i : ℕ} {O O' : PeerChange → Prop} {row : Option Peer}
  {stage : Stage}

lemma row?_ifaceName (ids : Identified w.toTables) (h : w.row? k = some p) :
    p.ifaceName = wgpName k := by
  obtain ⟨hp, rfl⟩ := row?_some h
  exact Known.ifaceName ids (ids.rowBorn p hp)

lemma Settled.frame (h : Settled w k) (ids : Identified w.toTables) (rows : w'.row? k = w.row? k)
    (links : SameNamed (wgpName k) w w') : Settled w' k := by
  unfold Settled at h ⊢
  rw [rows, links.hasIface]
  cases hr : w.row? k with
  | none =>
    rw [hr] at h
    exact h
  | some p =>
    rw [hr] at h
    refine h.imp_left fun set => ⟨set.1, Configured.frame set.2 ?_⟩
    rwa [row?_ifaceName ids hr]

lemma Reached.frame (h : Reached w k row stage) (names : ∀ p, row = some p → p.ifaceName = wgpName k)
    (links : SameNamed (wgpName k) w w') : Reached w' k row stage := by
  cases row with
  | none =>
    cases stage <;> first
      | exact h
      | exact links.hasIface.trans h
  | some p =>
    rw [← names p rfl] at links
    cases stage with
    | linked => exact Carries.frame h links
    | keyed =>
      obtain ⟨endpoint, hs, hc⟩ := h
      exact ⟨endpoint, hs, hc.frame links⟩
    | addressed => exact Configured.frame h links
    | removed =>
      rw [names p rfl] at links
      exact links.hasIface.trans h
    | untouched => exact h
    | recorded => exact h

/-- What the listener leaves when it is done with a row that did not change meanwhile. -/
lemma Reached.settled (h : Reached w k row stage) (complete : Complete row stage)
    (same : w.row? k = row) : Settled w k := by
  unfold Settled
  rw [same]
  cases row with
  | none => cases stage <;> first | exact h | exact complete.elim | exact h.elim
  | some p =>
    cases stage with
    | addressed => exact .inl ⟨complete, h⟩
    | removed => exact .inr ⟨complete, h⟩
    | recorded => exact h.elim
    | _ => exact complete.elim

/-- The event is in the queue, and no pass has read the row for it. -/
def Opened (w : World) (μ : ℕ → Hand) (e : PeerChange) : Prop :=
  e ∈ w.events ∧ ∀ j c rest, (μ j).progress ≠ .idle → (μ j).changes = c :: rest → e ≠ c

/-- There is such an event of the row. -/
def Due (O : PeerChange → Prop) (k : UInt32) : Prop := ∃ e, O e ∧ e.peer.peerId = k

/-- The row of the id is in the list, if there is one, and no other is. -/
def Lists (peers : List Peer) (t : Tables) (k : UInt32) : Prop :=
  ∀ p, p ∈ peers ∧ p.peerId = k ↔ t.row? k = some p

/-- The pass works on an event of this id. -/
def Works (m : Hand) (k : UInt32) : Prop :=
  ∃ row stage c rest, m.progress = .working row stage ∧ m.changes = c :: rest ∧ c.peer.peerId = k

/-- What the mode of a task says is true of the world. -/
structure HandOk (w : World) (O : PeerChange → Prop) (m : Hand) : Prop where
  held : ∀ asn peerName, m.pair = some (asn, peerName) → .peer asn peerName ∈ w.locks
  row : ∀ k, m.row = some k → ∃ pair, m.pair = some pair ∧ ∃ b ∈ w.born, b.peerId = k ∧ b.pair = pair
  owed : m.owes = true → ∃ k, m.row = some k ∧ Due O k
  queued : ∀ c ∈ m.changes, c ∈ w.events
  distinct : (m.changes.map PeerChange.eventId).Nodup
  listener : m.op = .syncPendingPeerChanges → m.row = none ∧
    ∀ pair, m.pair = some pair → ∃ c rest, m.changes = c :: rest ∧ c.peer.pair = pair
  working : m.progress ≠ .idle → m.op = .syncPendingPeerChanges ∧ m.changes ≠ []
  busy : ∀ row stage c rest, m.progress = .working row stage → m.changes = c :: rest →
    m.pair = some c.peer.pair ∧ (∀ p, row = some p → p.ifaceName = wgpName c.peer.peerId) ∧
      (Due O c.peer.peerId ∨ w.row? c.peer.peerId = row ∧ Reached w c.peer.peerId row stage)
  listed : ∀ peers, m.listed = some peers → m.op = .recover ∧
    (∀ p ∈ peers, p.ifaceName = wgpName p.peerId) ∧ ∀ k, Due O k ∨ Lists peers w.toTables k
  request : m.op ≠ .syncPendingPeerChanges → m.op ≠ .recover → m.changes = []

/-- Each id is settled, or somebody will still see to it. -/
structure Tending (w : World) (μ : ℕ → Hand) : Prop where
  hand : ∀ j, HandOk w (Opened w μ) (μ j)
  apart : ∀ j k pair, (μ j).pair = some pair → (μ k).pair = some pair → j = k
  lone : ∀ j k, (μ j).op = .recover → μ j = .start .recover ∨ (μ k).op = .recover
  right : ∀ k, Settled w k ∨ Due (Opened w μ) k ∨ ∃ j, Works (μ j) k

/-- The listener works alone on its events, and recovery alone. -/
structure Alone (μ : ℕ → Hand) (i : ℕ) : Prop where
  listener : (μ i).op = .syncPendingPeerChanges → ∀ j, j ≠ i → (μ j).progress = .idle ∧ (μ j).changes = []
  recover : (μ i).op = .recover → ∀ j, (μ j).op = .recover

lemma Works.progress_ne_idle (h : Works m k) : m.progress ≠ .idle := by
  obtain ⟨row, stage, c, rest, hp, -⟩ := h
  simp [hp]

lemma Due.mono (h : Due O k) (mono : ∀ e, O e → O' e) : Due O' k := by
  obtain ⟨e, he, hk⟩ := h
  exact ⟨e, mono e he, hk⟩

lemma HandOk.frame (h : HandOk w O m) (ids : Identified w.toTables)
    (locks : ∀ asn peerName, m.pair = some (asn, peerName) → .peer asn peerName ∈ w'.locks)
    (born : w.born ⊆ w'.born) (mono : ∀ e, O e → O' e)
    (rows : ∀ k, w'.row? k = w.row? k ∨ Due O' k)
    (links : ∀ k, Works m k → SameNamed (wgpName k) w w' ∨ Due O' k)
    (queued : ∀ c ∈ m.changes, c ∈ w'.events) : HandOk w' O' m where
  held := locks
  row := fun k hk => by
    obtain ⟨pair, hp, b, hb, hid⟩ := h.row k hk
    exact ⟨pair, hp, b, born hb, hid⟩
  owed := fun ho => by
    obtain ⟨k, hk, hd⟩ := h.owed ho
    exact ⟨k, hk, hd.mono mono⟩
  queued := queued
  distinct := h.distinct
  listener := h.listener
  working := h.working
  busy := fun row stage c rest hp hc => by
    obtain ⟨hpair, names, hd⟩ := h.busy row stage c rest hp hc
    refine ⟨hpair, names, ?_⟩
    rcases hd with hd | ⟨same, reached⟩
    · exact .inl (hd.mono mono)
    · rcases rows c.peer.peerId with hr | hd
      · rcases links c.peer.peerId ⟨row, stage, c, rest, hp, hc, rfl⟩ with hl | hd
        · refine .inr ⟨hr.trans same, reached.frame (fun p hrow => ?_) hl⟩
          exact row?_ifaceName ids (same.trans hrow)
        · exact .inl hd
      · exact .inl hd
  listed := fun peers hp => by
    obtain ⟨hop, names, hl⟩ := h.listed peers hp
    refine ⟨hop, names, fun k => ?_⟩
    rcases hl k with hd | hl
    · exact .inl (hd.mono mono)
    · rcases rows k with hr | hd
      · exact .inr fun p => by rw [hr]; exact hl p
      · exact .inl hd
  request := h.request

/-- The step of a pass went wrong. -/
lemma HandOk.failed (h : HandOk w O m) : HandOk w O m.failed :=
  { h with
    working := fun hp => absurd rfl hp
    busy := fun _ _ _ _ hp => by cases hp }

lemma Opened.mono {e : PeerChange} (h : Opened w μ e) (events : e ∈ w'.events)
    (modes : (μ' i).progress ≠ .idle → (μ i).progress ≠ .idle ∧ (μ' i).changes = (μ i).changes)
    (others : ∀ j, j ≠ i → μ' j = μ j) : Opened w' μ' e := by
  refine ⟨events, fun j c rest hp hc => ?_⟩
  rcases eq_or_ne j i with rfl | hj
  · obtain ⟨hp', hc'⟩ := modes hp
    exact h.2 j c rest hp' (hc' ▸ hc)
  · rw [others j hj] at hp hc
    exact h.2 j c rest hp hc

/-- A new event is not one that a pass has come to. -/
lemma recorded_opened {P : Peer → Prop} (h : Recorded w.toTables w'.toTables P)
    (ids : Identified w.toTables)
    (queued : ∀ j, (μ' j).progress ≠ .idle → ∀ c ∈ (μ' j).changes, c ∈ w.events) :
    ∃ e, Opened w' μ' e ∧ P e.peer := by
  obtain ⟨e, he, hid, hp⟩ := h
  refine ⟨e, ⟨he, ?_⟩, hp⟩
  rintro j c rest hprogress hc rfl
  have := ids.eventNext e (queued j hprogress e (by simp [hc]))
  omega

/-- Task `i` moves to mode `m'`. -/
lemma Tending.build (h : Tending w μ)
    (lone : m' = μ i ∨ ((μ i).op = .recover → ∀ j, (μ j).op = .recover)) (op : m'.op = (μ i).op)
    (others : ∀ j, j ≠ i → HandOk w' (Opened w' (Function.update μ i m')) (μ j))
    (own : HandOk w' (Opened w' (Function.update μ i m')) m')
    (apart : ∀ pair, m'.pair = some pair → ∀ j, j ≠ i → (μ j).pair ≠ some pair)
    (right : ∀ k, Settled w' k ∨ Due (Opened w' (Function.update μ i m')) k ∨
      ∃ j, Works (Function.update μ i m' j) k) :
    Tending w' (Function.update μ i m') := by
  have at_i : Function.update μ i m' i = m' := Function.update_self ..
  have at_j : ∀ j, j ≠ i → Function.update μ i m' j = μ j := fun j hj => Function.update_of_ne hj ..
  have ops : ∀ j, (Function.update μ i m' j).op = (μ j).op := fun j => by
    rcases eq_or_ne j i with rfl | hj
    · rw [at_i, op]
    · rw [at_j j hj]
  refine ⟨fun j => ?_, fun j k pair hj hk => ?_, fun j k hj => ?_, right⟩
  · rcases eq_or_ne j i with rfl | hj
    · rwa [at_i]
    · rw [at_j j hj]
      exact others j hj
  · rcases eq_or_ne j i with rfl | hji <;> rcases eq_or_ne k j with rfl | hkj
    · rfl
    · rw [at_i] at hj
      rw [at_j k hkj] at hk
      exact absurd hk (apart pair hj k hkj)
    · rfl
    · rw [at_j j hji] at hj
      rcases eq_or_ne k i with rfl | hki
      · rw [at_i] at hk
        exact absurd hj (apart pair hk j hji)
      · rw [at_j k hki] at hk
        exact h.apart j k pair hj hk
  · rw [ops] at hj
    rw [ops]
    rcases eq_or_ne j i with rfl | hji
    · rcases lone with rfl | lone
      · rw [at_i]
        exact h.lone j k hj
      · exact .inr (lone hj k)
    · rw [at_j j hji]
      exact h.lone j k hj

/-- A step of task `i` that closes no event and takes none. -/
lemma Tending.plain (h : Tending w μ) (ids : Identified w.toTables)
    (lone : m' = μ i ∨ ((μ i).op = .recover → ∀ j, (μ j).op = .recover)) (op : m'.op = (μ i).op)
    (grown : Grown w.toTables w'.toTables) (born : w.born ⊆ w'.born)
    (rows : ∀ k, RowMoved w.toTables w'.toTables k)
    (progress : m'.progress ≠ .idle → (μ i).progress ≠ .idle ∧ m'.changes = (μ i).changes)
    (locks : ∀ j, j ≠ i → ∀ asn peerName, (μ j).pair = some (asn, peerName) →
      .peer asn peerName ∈ w'.locks)
    (apart : ∀ pair, m'.pair = some pair → ∀ j, j ≠ i → (μ j).pair ≠ some pair)
    (links : (∀ e, Opened w μ e → Opened w' (Function.update μ i m') e) → ∀ k,
      SameNamed (wgpName k) w w' ∨ Due (Opened w' (Function.update μ i m')) k ∨
        (∀ j, j ≠ i → ¬Works (μ j) k) ∧ (Settled w k → Settled w' k ∨ Works m' k))
    (own : (∀ e, Opened w μ e → Opened w' (Function.update μ i m') e) →
      (∀ P, Recorded w.toTables w'.toTables P → ∃ e, Opened w' (Function.update μ i m') e ∧
        P e.peer) →
      (∀ k, w'.row? k = w.row? k ∨ Due (Opened w' (Function.update μ i m')) k) →
      HandOk w' (Opened w' (Function.update μ i m')) m')
    (kept : (∀ e, Opened w μ e → Opened w' (Function.update μ i m') e) → ∀ k, Works (μ i) k →
      Settled w' k ∨ Due (Opened w' (Function.update μ i m')) k ∨ Works m' k) :
    Tending w' (Function.update μ i m') := by
  have at_i : Function.update μ i m' i = m' := Function.update_self ..
  have at_j : ∀ j, j ≠ i → Function.update μ i m' j = μ j := fun j hj => Function.update_of_ne hj ..
  have mono : ∀ e, Opened w μ e → Opened w' (Function.update μ i m') e := fun e he => by
    refine he.mono (grown.mem he.1) (fun hp => ?_) at_j
    rw [at_i] at hp ⊢
    exact progress hp
  have new : ∀ P, Recorded w.toTables w'.toTables P →
      ∃ e, Opened w' (Function.update μ i m') e ∧ P e.peer := fun P hr => by
    refine recorded_opened hr ids fun j hp c hc => ?_
    rcases eq_or_ne j i with rfl | hj
    · rw [at_i] at hp hc
      exact (h.hand j).queued c ((progress hp).2 ▸ hc)
    · rw [at_j j hj] at hc
      exact (h.hand j).queued c hc
  have moved : ∀ k, w'.row? k = w.row? k ∨ Due (Opened w' (Function.update μ i m')) k := fun k =>
    (rows k).imp_right (new _)
  refine h.build lone op (fun j hj => ?_) (own mono new moved) apart fun k => ?_
  · refine (h.hand j).frame ids (locks j hj) born mono moved (fun k hw => ?_) fun c hc =>
      grown.mem ((h.hand j).queued c hc)
    rcases links mono k with hl | hd | ⟨none, -⟩
    · exact .inl hl
    · exact .inr hd
    · exact absurd hw (none j hj)
  · rcases h.right k with hs | hd | ⟨j, hw⟩
    · rcases moved k with hr | hd
      · rcases links mono k with hl | hd | ⟨-, keep⟩
        · exact .inl (hs.frame ids hr hl)
        · exact .inr (.inl hd)
        · rcases keep hs with hs' | hw
          · exact .inl hs'
          · exact .inr (.inr ⟨i, by rwa [at_i]⟩)
      · exact .inr (.inl hd)
    · exact .inr (.inl (hd.mono mono))
    · rcases eq_or_ne j i with rfl | hj
      · rcases kept mono k hw with hs | hd | hw'
        · exact .inl hs
        · exact .inr (.inl hd)
        · exact .inr (.inr ⟨j, by rwa [at_i]⟩)
      · exact .inr (.inr ⟨j, by rwa [at_j j hj]⟩)

/-- The pair that a task holds is held by no other. -/
lemma Tending.elsewhere (h : Tending w μ) (same : m'.pair = (μ i).pair) :
    ∀ pair, m'.pair = some pair → ∀ j, j ≠ i → (μ j).pair ≠ some pair :=
  fun pair hp j hj hjp => hj (h.apart j i pair hjp (same ▸ hp))

section Locks
variable {locks : List Lock}

lemma HandOk.relocked (h : HandOk w O m) (ids : Identified w.toTables)
    (held : ∀ asn peerName, m.pair = some (asn, peerName) → .peer asn peerName ∈ locks)
    (mono : ∀ e, O e → O' e) : HandOk { w with locks } O' m :=
  h.frame ids held (List.Subset.refl _) mono (fun _ => .inl rfl) (fun _ _ => .inl fun _ _ => Iff.rfl)
    h.queued

/-- A step of task `i` that changes the locks only. -/
lemma Tending.relocked (h : Tending w μ) (ids : Identified w.toTables) (alone : Alone μ i)
    (op : m'.op = (μ i).op)
    (progress : m'.progress ≠ .idle → (μ i).progress ≠ .idle ∧ m'.changes = (μ i).changes)
    (held : ∀ j, j ≠ i → ∀ asn peerName, (μ j).pair = some (asn, peerName) →
      .peer asn peerName ∈ locks)
    (apart : ∀ pair, m'.pair = some pair → ∀ j, j ≠ i → (μ j).pair ≠ some pair)
    (own : ∀ O', (∀ e, Opened w μ e → O' e) → HandOk { w with locks } O' m')
    (kept : (∀ e, Opened w μ e → Opened { w with locks } (Function.update μ i m') e) →
      ∀ k, Works (μ i) k → Settled { w with locks } k ∨
        Due (Opened { w with locks } (Function.update μ i m')) k ∨ Works m' k) :
    Tending { w with locks } (Function.update μ i m') :=
  h.plain ids (.inr alone.recover) op (Grown.refl _) (List.Subset.refl _) (fun _ => .inl rfl) progress
    held apart (fun _ _ => .inl fun _ _ => Iff.rfl) (fun mono _ _ => own _ mono) kept

end Locks

section Calls
variable {asn : UInt32} {peerName : String}

/-- The event that the listener gives up is open again. -/
lemma Tending.reopened (h : Tending w μ) (alone : Alone μ i) (events : ∀ e ∈ w.events, e ∈ w'.events)
    (idle : m'.progress = .idle) (hw : Works (μ i) k) :
    Due (Opened w' (Function.update μ i m')) k := by
  obtain ⟨row, stage, c, rest, hp, hc, rfl⟩ := hw
  refine ⟨c, ⟨events c ((h.hand i).queued c (by simp [hc])), fun j c' rest' hj _ => ?_⟩, rfl⟩
  rcases eq_or_ne j i with rfl | hji
  · rw [Function.update_self] at hj
    exact absurd idle hj
  · rw [Function.update_of_ne hji] at hj
    exact absurd (alone.listener ((h.hand i).working (by simp [hp])).1 j hji).1 hj

lemma goesOn_aside {c : Io} (aside : ∀ n, ¬OnIface n c) : m.goesOn c = m := by
  have after : ∀ stage : Stage, stage.after c = stage := fun stage => by
    cases c <;> first | rfl | exact absurd rfl (aside _)
  obtain ⟨_, _, _, _, _, progress, _⟩ := m
  cases progress with
  | working row stage => simp only [Hand.goesOn, after]
  | _ => rfl

lemma lists_row? (ids : Identified w.toTables) : Lists (w.listPeers cfg) w.toTables k := fun p => by
  rw [mem_listPeers]
  constructor
  · rintro ⟨hp, rfl⟩
    exact row?_eq_of_mem ids.rowIds hp
  · exact row?_some

/-- The mode of a task that gives its pair back. -/
lemma HandOk.released (h : HandOk w O m) : HandOk w O m.released := by
  unfold Hand.released
  split
  · rename_i hidle
    exact { h with
      held := fun _ _ hp => by cases hp
      row := fun _ hk => by cases hk
      owed := fun ho => by cases ho
      queued := fun c hc => by
        refine h.queued c ?_
        dsimp only at hc
        split at hc
        · exact List.mem_of_mem_tail hc
        · exact hc
      distinct := by
        dsimp only
        split
        · exact h.distinct.sublist ((List.tail_sublist _).map _)
        · exact h.distinct
      listener := fun _ => ⟨rfl, fun _ hp => by cases hp⟩
      working := fun hp => absurd hidle hp
      busy := fun row stage _ _ hp => by
        rw [show m.progress = .working row stage from hp] at hidle
        cases hidle
      request := fun hl hr => by
        simp only [h.request hl hr, List.tail_nil, ite_self] }
  · rename_i hbusy
    exact { h with
      held := fun _ _ hp => by cases hp
      row := fun _ hk => by cases hk
      owed := fun ho => by cases ho
      listener := fun _ => ⟨rfl, fun _ hp => by cases hp⟩
      working := fun _ => h.working hbusy
      busy := fun _ _ _ _ hp => by cases hp }

variable (h : Tending w μ) (ids : Identified w.toTables) (alone : Alone μ i)
include h ids alone

/-- A call that is not on an interface. -/
lemma Tending.io {c : Io} {a : Except PeerError c.Value} (hx : exec cfg o (.io c) w = some (a, w'))
    (keeps : KeepsEvents (.io c)) (aside : ∀ n, ¬OnIface n c) (op : m'.op = (μ i).op)
    (pair : m'.pair = (μ i).pair)
    (progress : m'.progress ≠ .idle → (μ i).progress ≠ .idle ∧ m'.changes = (μ i).changes)
    (own : (∀ P, Recorded w.toTables w'.toTables P → ∃ e, Opened w' (Function.update μ i m') e ∧
        P e.peer) →
      HandOk w' (Opened w' (Function.update μ i m')) (μ i) →
        HandOk w' (Opened w' (Function.update μ i m')) m')
    (kept : ∀ k, Works (μ i) k → Due (Opened w' (Function.update μ i m')) k ∨ Works m' k) :
    Tending w' (Function.update μ i m') := by
  have grown := exec_grown keeps hx
  have same : ∀ k, SameNamed (wgpName k) w w' := fun _ => sameNamed_of_eq (exec_ifaces aside hx)
  have locks : ∀ j asn peerName, (μ j).pair = some (asn, peerName) →
      .peer asn peerName ∈ w'.locks := fun j asn peerName hj => by
    rw [exec_locks hx]
    exact (h.hand j).held asn peerName hj
  refine h.plain ids (.inr alone.recover) op grown (exec_born hx) (fun _ => exec_rowMoved hx) progress
    (fun j _ => locks j) (h.elsewhere pair) (fun _ k => .inl (same k))
    (fun mono new moved => own new ?_) fun _ k hw => .inr (kept k hw)
  exact (h.hand i).frame ids (locks i) (exec_born hx) mono moved (fun k _ => .inl (same k))
    fun c hc => grown.mem ((h.hand i).queued c hc)

lemma Tending.io_same {c : Io} {a : Except PeerError c.Value}
    (hx : exec cfg o (.io c) w = some (a, w')) (keeps : KeepsEvents (.io c))
    (aside : ∀ n, ¬OnIface n c) :
    Tending w' (Function.update μ i (μ i)) :=
  h.io ids alone hx keeps aside rfl rfl (fun hp => ⟨hp, rfl⟩) (fun _ ok => ok) fun _ hw => .inr hw

lemma Tending.io_failed {c : Io} {a : Except PeerError c.Value}
    (hx : exec cfg o (.io c) w = some (a, w')) (keeps : KeepsEvents (.io c))
    (aside : ∀ n, ¬OnIface n c) :
    Tending w' (Function.update μ i (μ i).failed) :=
  h.io ids alone hx keeps aside rfl rfl (fun hp => absurd rfl hp) (fun _ ok => ok.failed)
    fun _ hw => .inl (h.reopened alone (fun _ => (exec_grown keeps hx).mem) rfl hw)

lemma Tending.io_goesOn {c : Io} {a : Except PeerError c.Value}
    (hx : exec cfg o (.io c) w = some (a, w')) (keeps : KeepsEvents (.io c))
    (aside : ∀ n, ¬OnIface n c) :
    Tending w' (Function.update μ i ((μ i).goesOn c)) := by
  rw [goesOn_aside aside]
  exact h.io_same ids alone hx keeps aside

/-- A write of a row that worked. -/
lemma Tending.records {c : Io} {a : Except PeerError c.Value}
    (hx : exec cfg o (.io c) w = some (a, w'))
    (keeps : KeepsEvents (.io c)) (aside : ∀ n, ¬OnIface n c)
    (record : Recorded w.toTables w'.toTables fun q => q.peerId = peerId)
    (head : OnHead (μ i) peerId) : Tending w' (Function.update μ i ((μ i).records peerId)) := by
  have progress : ∀ {row stage}, ((μ i).records peerId).progress = .working row stage →
      ∃ before, (μ i).progress = .working row before := fun {row stage} hp => by
    unfold Hand.records at hp
    split at hp
    · rename_i before hb
      cases hp
      exact ⟨before, hb⟩
    · exact ⟨stage, hp⟩
  have idle : (μ i).progress = .idle → ((μ i).records peerId).progress = .idle := fun hp => by
    simp only [Hand.records, hp]
  have works : ∀ k, Works (μ i) k → Works ((μ i).records peerId) k := fun k hw => by
    obtain ⟨row, stage, c, rest, hp, hc, hk⟩ := hw
    exact ⟨row, .recorded, c, rest, by simp only [Hand.records, hp], hc, hk⟩
  refine h.io ids alone hx keeps aside rfl rfl (fun hp => ⟨fun hi => hp (idle hi), rfl⟩)
    (fun new ok => ?_) fun k hw => .inr (works k hw)
  exact
    { ok with
      owed := fun ho => by
        rcases Bool.or_eq_true_iff.mp ho with ho | ho
        · exact ok.owed ho
        · exact ⟨peerId, of_decide_eq_true ho, new _ record⟩
      working := fun hp => ok.working fun hi => hp (idle hi)
      busy := fun row stage c rest hp hc => by
        obtain ⟨before, hb⟩ := progress hp
        obtain ⟨c', rest', hc', hid⟩ := head row before hb
        obtain ⟨rfl, -⟩ := List.cons.inj (hc.symm.trans hc')
        obtain ⟨hpair, names, -⟩ := ok.busy row before c rest hb hc
        exact ⟨hpair, names, .inl (hid ▸ new _ record)⟩ }

lemma Tending.setStatus {status : PeerStatus} {a : Except PeerError Bool}
    (hx : exec cfg o (.io (.setStatus peerId status)) w = some (a, w'))
    (head : OnHead (μ i) peerId) :
    Tending w' (Function.update μ i (handNext (μ i) (.io (.setStatus peerId status)) a)) := by
  rcases a with e | (_ | _)
  · exact h.io_failed ids alone hx trivial fun _ => id
  · exact h.io_failed ids alone hx trivial fun _ => id
  · obtain ⟨r, -, rfl, record⟩ := exec_setStatus hx
    exact h.records ids alone hx trivial (fun _ => id) (record.imp fun _ => And.left) head

lemma Tending.deletePeer {a : Except PeerError Bool}
    (hx : exec cfg o (.io (.deletePeer peerId)) w = some (a, w')) (head : OnHead (μ i) peerId) :
    Tending w' (Function.update μ i (handNext (μ i) (.io (.deletePeer peerId)) a)) := by
  rcases a with e | (_ | _)
  · exact h.io_failed ids alone hx trivial fun _ => id
  · exact h.io_failed ids alone hx trivial fun _ => id
  · obtain ⟨r, -, rfl, record⟩ := exec_deletePeer hx
    exact h.records ids alone hx trivial (fun _ => id) (record.imp fun _ => And.left) head

lemma Tending.updatePeerDesired {q : Peer} {a : Except PeerError Bool}
    (hx : exec cfg o (.io (.updatePeerDesired q)) w = some (a, w')) (head : OnHead (μ i) q.peerId) :
    Tending w' (Function.update μ i (handNext (μ i) (.io (.updatePeerDesired q)) a)) := by
  rcases a with e | (_ | _)
  · exact h.io_failed ids alone hx trivial fun _ => id
  · exact h.io_goesOn ids alone hx trivial fun _ => id
  · obtain ⟨r, -, hid, record⟩ := exec_updatePeerDesired hx
    exact h.records ids alone hx trivial (fun _ => id)
      (record.imp fun _ hq => hq.1.trans hid) head

lemma Tending.reservePeer {test : Bool} {a : Except PeerError Bool}
    (hx : exec cfg o (.io (.reservePeer p test)) w = some (a, w'))
    (allowed : handAllowed (μ i) (.io (.reservePeer p test))) :
    Tending w' (Function.update μ i (handNext (μ i) (.io (.reservePeer p test)) a)) := by
  rcases a with e | (_ | _)
  · cases test <;> exact h.io_failed ids alone hx trivial fun _ => id
  · cases test <;> exact h.io_goesOn ids alone hx trivial fun _ => id
  · cases test with
    | true => exact h.io_goesOn ids alone hx trivial fun _ => id
    | false =>
      obtain ⟨hpair, hop⟩ := allowed
      obtain ⟨inserted, record⟩ := exec_reservePeer hx
      refine h.io ids alone hx trivial (fun _ => id) rfl rfl (fun hp => ⟨hp, rfl⟩) (fun new ok => ?_)
        fun _ hw => .inr hw
      exact { ok with
        row := fun k hk => by
          cases hk
          exact ⟨p.pair, hpair, _, inserted, rfl, rfl⟩
        owed := fun _ => ⟨p.peerId, rfl, new _ (record.imp fun _ => And.left)⟩
        listener := fun hl => absurd hl hop }

/-- A request has read the row of its pair. -/
lemma Tending.getPeer {a : Except PeerError (Option Peer)}
    (hx : exec cfg o (.io (.getPeer asn peerName)) w = some (a, w'))
    (allowed : handAllowed (μ i) (.io (.getPeer asn peerName))) :
    Tending w' (Function.update μ i (handNext (μ i) (.io (.getPeer asn peerName)) a)) := by
  rcases a with e | (_ | p)
  · exact h.io_failed ids alone hx trivial fun _ => id
  · exact h.io_goesOn ids alone hx trivial fun _ => id
  · obtain ⟨hrow, rfl⟩ : w.rowOf? asn peerName = some p ∧ w = w' := by
      simpa [effect] using exec_ok hx
    obtain ⟨hp, rfl, rfl⟩ := rowOf?_some hrow
    obtain ⟨b, hb, hbp⟩ := ids.rowBorn p hp
    refine h.io ids alone hx trivial (fun _ => id) rfl rfl (fun hp => ⟨hp, rfl⟩) (fun _ ok => ?_)
      fun _ hw => .inr hw
    exact { ok with
      row := fun k hk => by
        cases hk
        exact ⟨_, allowed.1, b, hb, identity_peerId hbp, identity_pair hbp⟩
      owed := fun ho => by cases ho
      listener := fun hl => absurd hl allowed.2 }

/-- The listener has read the row of the event that it works on. -/
lemma Tending.read (hop : (μ i).op = .syncPendingPeerChanges)
    (allowed : handAllowed (μ i) (.io (.getPeerById peerId))) :
    Tending w (Function.update μ i
      { μ i with progress := .working (w.row? peerId) .untouched }) := by
  obtain ⟨hpair, hidle, c, rest, hchanges, rfl⟩ := allowed hop
  obtain ⟨pair, hpair⟩ := Option.isSome_iff_exists.mp hpair
  obtain ⟨hrow, hhead⟩ := (h.hand i).listener hop
  obtain ⟨c', rest', hc', rfl⟩ := hhead pair hpair
  obtain ⟨rfl, -⟩ := List.cons.inj (hchanges.symm.trans hc')
  have closes : ∀ e, Opened w μ e → e ≠ c → Opened w (Function.update μ i
      { μ i with progress := .working (w.row? c.peer.peerId) .untouched }) e := fun e he hne => by
    refine ⟨he.1, fun j d rest' hp hd => ?_⟩
    rcases eq_or_ne j i with rfl | hj
    · rw [Function.update_self] at hd
      obtain ⟨rfl, -⟩ := List.cons.inj (hchanges.symm.trans hd)
      exact hne
    · rw [Function.update_of_ne hj] at hp
      exact absurd (alone.listener hop j hj).1 hp
  refine h.build (.inr alone.recover) rfl (fun j hj => ?_) ?_ (h.elsewhere rfl) fun k => ?_
  · have idle := (alone.listener hop j hj).1
    exact { h.hand j with
      owed := fun ho => by
        obtain ⟨k, hk, e, he, rfl⟩ := (h.hand j).owed ho
        refine ⟨e.peer.peerId, hk, e, closes e he ?_, rfl⟩
        rintro rfl
        obtain ⟨pair, hjp, b, hb, hid, rfl⟩ := (h.hand j).row _ hk
        obtain ⟨b', hb', hbe⟩ := ids.eventBorn e he.1
        have same := List.inj_on_of_nodup_map ids.bornIds hb hb'
          (hid.trans (identity_peerId hbe).symm)
        rw [same, identity_pair hbe] at hjp
        exact hj (h.apart j i _ hjp hpair)
      busy := fun _ _ _ _ hp => by
        rw [idle] at hp
        cases hp
      listed := fun peers hp => by
        obtain ⟨hr, -⟩ := (h.hand j).listed peers hp
        rcases h.lone j i hr with hs | hr'
        · rw [hs] at hp
          cases hp
        · rw [hop] at hr'
          cases hr' }
  · exact { h.hand i with
      owed := fun ho => by
        obtain ⟨k, hk, -⟩ := (h.hand i).owed ho
        rw [hrow] at hk
        cases hk
      working := fun _ => ⟨hop, by simp [hchanges]⟩
      busy := fun row stage d rest' hp hd => by
        cases hp
        obtain ⟨rfl, -⟩ := List.cons.inj (hchanges.symm.trans hd)
        exact ⟨hpair, fun p hr => row?_ifaceName ids hr, .inr ⟨rfl, trivial⟩⟩
      listed := fun peers hp => by
        obtain ⟨hr, -⟩ := (h.hand i).listed peers hp
        rw [hop] at hr
        cases hr }
  · rcases h.right k with hs | ⟨e, he, rfl⟩ | ⟨j, row, stage, d, rest', hp, hd, rfl⟩
    · exact .inl hs
    · by_cases hec : e = c
      · exact .inr (.inr ⟨i, _, _, c, rest, by rw [Function.update_self],
          by rw [Function.update_self]; exact hchanges, by rw [hec]⟩)
      · exact .inr (.inl ⟨e, closes e he hec, rfl⟩)
    · rcases eq_or_ne j i with rfl | hj
      · rw [hidle] at hp
        cases hp
      · rw [(alone.listener hop j hj).1] at hp
        cases hp

lemma Tending.getPeerById {a : Except PeerError (Option Peer)}
    (hx : exec cfg o (.io (.getPeerById peerId)) w = some (a, w'))
    (allowed : handAllowed (μ i) (.io (.getPeerById peerId))) :
    Tending w' (Function.update μ i (handNext (μ i) (.io (.getPeerById peerId)) a)) := by
  cases a with
  | error e => exact h.io_failed ids alone hx trivial fun _ => id
  | ok row =>
    obtain ⟨rfl, rfl⟩ : w.row? peerId = row ∧ w = w' := by simpa [effect] using exec_ok hx
    change Tending w (Function.update μ i ((μ i).reads (w.row? peerId)))
    by_cases hop : (μ i).op = .syncPendingPeerChanges
    · rw [Hand.reads, if_pos hop]
      exact h.read ids alone hop allowed
    · rw [reads_of_ne hop]
      exact h.io_same ids alone hx trivial fun _ => id

lemma Tending.listPeers {a : Except PeerError (List Peer)}
    (hx : exec cfg o (.io .listPeers) w = some (a, w')) :
    Tending w' (Function.update μ i (handNext (μ i) (.io .listPeers) a)) := by
  cases a with
  | error e => exact h.io_failed ids alone hx trivial fun _ => id
  | ok peers =>
    obtain ⟨rfl, rfl⟩ : w.listPeers cfg = peers ∧ w = w' := by simpa [effect] using exec_ok hx
    change Tending w (Function.update μ i ((μ i).lists (w.listPeers cfg)))
    by_cases hop : (μ i).op = .recover
    · rw [Hand.lists, if_pos hop]
      refine h.io ids alone hx trivial (fun _ => id) rfl rfl (fun hp => ⟨hp, rfl⟩) (fun _ ok => ?_)
        fun _ hw => .inr hw
      exact { ok with
        listed := fun peers hp => by
          cases hp
          exact ⟨hop, fun p hp => Known.ifaceName ids (ids.rowBorn p (mem_listPeers.mp hp)),
            fun k => .inr (lists_row? ids)⟩ }
    · rw [lists_of_ne hop]
      exact h.io_same ids alone hx trivial fun _ => id

lemma Tending.listPeerChanges {a : Except PeerError (List PeerChange)}
    (hx : exec cfg o (.io .listPeerChanges) w = some (a, w'))
    (allowed : handAllowed (μ i) (.io .listPeerChanges)) :
    Tending w' (Function.update μ i (handNext (μ i) (.io .listPeerChanges) a)) := by
  cases a with
  | error e => exact h.io_failed ids alone hx trivial fun _ => id
  | ok changes =>
    obtain ⟨rfl, rfl⟩ : w.listPeerChanges = changes ∧ w = w' := by simpa [effect] using exec_ok hx
    obtain ⟨hpair, hidle, hop⟩ := allowed
    refine h.io ids alone hx trivial (fun _ => id) rfl rfl (fun hp => absurd hidle hp) (fun _ ok => ?_)
      fun k hw => absurd hidle hw.progress_ne_idle
    exact { ok with
      queued := fun c hc => mem_listPeerChanges.mp hc
      distinct := ((List.perm_insertionSort _ _).map _).nodup_iff.mpr ids.eventIds
      listener := fun hl => ⟨(ok.listener hl).1, fun p hp => by
        rw [show (μ i).pair = some p from hp] at hpair
        cases hpair⟩
      working := fun hp => absurd hidle hp
      busy := fun row stage c rest hp => by
        rw [show (μ i).progress = .working row stage from hp] at hidle
        cases hidle
      request := fun hl hr => (hop.elim hl hr).elim }

/-- The listener removes the event it is done with. -/
lemma Tending.deletePeerChange {eventId : ℕ} {a : Except PeerError Bool}
    (hx : exec cfg o (.io (.deletePeerChange eventId)) w = some (a, w'))
    (allowed : handAllowed (μ i) (.io (.deletePeerChange eventId))) :
    Tending w' (Function.update μ i
      { μ i with changes := (μ i).changes.tail, progress := .idle }) := by
  obtain ⟨hpair, hprogress, c, rest, hchanges, rfl⟩ := allowed
  have hop := ((h.hand i).working (by simp [hprogress])).1
  have hc : c ∈ w.events := (h.hand i).queued c (by simp [hchanges])
  have keeps : ∀ e ∈ w.events, e ≠ c → e ∈ w'.events := fun e he hne => by
    rcases exec_deletePeerChange hx with ⟨same, -⟩ | ⟨gone, -⟩
    · rwa [same]
    · rw [gone]
      exact mem_deleteChange.mpr ⟨he, fun hid => hne (event_unique ids he hc hid)⟩
  have rows : w'.peers = w.peers ∧ w'.born = w.born := by
    rcases exec_deletePeerChange hx with ⟨same, -⟩ | ⟨gone, -⟩ <;> rw [‹w'.toTables = _›] <;>
      exact ⟨rfl, rfl⟩
  have row : ∀ k, w'.row? k = w.row? k := fun k => by rw [Tables.row?, Tables.row?, rows.1]
  have links : ∀ k, SameNamed (wgpName k) w w' := fun _ =>
    sameNamed_of_eq (exec_ifaces (fun _ => id) hx)
  have mono : ∀ e, Opened w μ e → Opened w' (Function.update μ i
      { μ i with changes := (μ i).changes.tail, progress := .idle }) e := fun e he => by
    refine he.mono (keeps e he.1 (he.2 i c rest (by simp [hprogress]) hchanges)) (fun hp => ?_)
      fun j hj => Function.update_of_ne hj ..
    rw [Function.update_self] at hp
    exact absurd rfl hp
  have free : ∀ p, (μ i).pair ≠ some p := fun p hp => by
    rw [hp] at hpair
    cases hpair
  have still : ∀ (m : Hand), (∀ d ∈ m.changes, d ∈ w'.events) → HandOk w (Opened w μ) m →
      (∀ asn peerName, m.pair = some (asn, peerName) → .peer asn peerName ∈ w.locks) →
      HandOk w' (Opened w' (Function.update μ i
        { μ i with changes := (μ i).changes.tail, progress := .idle })) m := fun m queued ok held =>
    ok.frame ids (fun a n hp => by rw [exec_locks hx]; exact held a n hp)
      (by rw [rows.2]; exact List.Subset.refl _) mono (fun k => .inl (row k))
      (fun k _ => .inl (links k)) queued
  refine h.build (.inr alone.recover) rfl (fun j hj => ?_) ?_ (fun p hp => absurd hp (free p)) fun k => ?_
  · refine still _ (fun d hd => ?_) (h.hand j) (h.hand j).held
    rw [(alone.listener hop j hj).2] at hd
    cases hd
  · have distinct := (h.hand i).distinct
    rw [hchanges, List.map_cons, List.nodup_cons] at distinct
    have tail : HandOk w (Opened w μ) { μ i with changes := (μ i).changes.tail, progress := .idle } :=
      { h.hand i with
        queued := fun d hd => (h.hand i).queued d (List.mem_of_mem_tail hd)
        distinct := by
          simp only [hchanges, List.tail_cons]
          exact distinct.2
        listener := fun hl => ⟨((h.hand i).listener hl).1, fun p hp => absurd hp (free p)⟩
        working := fun hp => absurd rfl hp
        busy := fun _ _ _ _ hp => by cases hp
        request := fun hl => absurd hop hl }
    refine still _ (fun d hd => ?_) tail tail.held
    simp only [hchanges, List.tail_cons] at hd
    refine keeps d ((h.hand i).queued d (by simp [hchanges, hd])) ?_
    rintro rfl
    exact distinct.1 (List.mem_map_of_mem hd)
  · rcases h.right k with hs | hd | ⟨j, row', stage, d, rest', hp, hd, rfl⟩
    · exact .inl (hs.frame ids (row k) (links k))
    · exact .inr (.inl (hd.mono mono))
    · rcases eq_or_ne j i with rfl | hj
      · rw [hprogress] at hp
        cases hp
      · rw [(alone.listener hop j hj).1] at hp
        cases hp

/-- The locks of the shared state and of the ports are nobody's pair. -/
lemma Tending.sharedLock {l : Lock} (hl : ∀ asn peerName, l ≠ .peer asn peerName)
    {locks : List Lock} (hlocks : ∀ k, k ≠ l → k ∈ w.locks → k ∈ locks) :
    Tending { w with locks } (Function.update μ i (μ i)) := by
  have held : ∀ j asn peerName, (μ j).pair = some (asn, peerName) → .peer asn peerName ∈ locks :=
    fun j asn peerName hj => hlocks _ (hl asn peerName).symm ((h.hand j).held asn peerName hj)
  exact h.relocked ids alone rfl (fun hp => ⟨hp, rfl⟩) (fun j _ => held j) (h.elsewhere rfl)
    (fun _ mono => (h.hand i).relocked ids (held i) mono) fun _ _ hw => .inr (.inr hw)

lemma Tending.lock {l : Lock} (hl : ∀ asn peerName, l ≠ .peer asn peerName) {a : Unit}
    (hx : exec cfg o (.lock l) w = some (a, w')) : Tending w' (Function.update μ i (μ i)) := by
  rw [exec_lock hx]
  exact h.sharedLock ids alone hl fun _ _ hk => List.mem_cons_of_mem _ hk

lemma Tending.unlock {l : Lock} (hl : ∀ asn peerName, l ≠ .peer asn peerName) {a : Unit}
    (hx : exec cfg o (.unlock l) w = some (a, w')) : Tending w' (Function.update μ i (μ i)) := by
  rw [exec_unlock hx]
  exact h.sharedLock ids alone hl fun _ hne hk => (List.mem_erase_of_ne hne).mpr hk

lemma Tending.lockPeer (hx : exec cfg o (.lock (.peer asn peerName)) w = some ((), w'))
    (allowed : handAllowed (μ i) (.lock (.peer asn peerName))) :
    Tending w' (Function.update μ i { μ i with pair := some (asn, peerName) }) := by
  obtain ⟨hpair, hidle, hhead⟩ := allowed
  have free : .peer asn peerName ∉ w.locks := by
    intro hl
    cases o <;> simp [exec, hl] at hx
  obtain rfl := exec_lock hx
  have unheld : ∀ p, (μ i).pair ≠ some p := fun p hp => by
    rw [hpair] at hp
    cases hp
  refine h.relocked ids alone rfl (fun hp => ⟨hp, rfl⟩)
    (fun j _ a n hj => List.mem_cons_of_mem _ ((h.hand j).held a n hj)) (fun p hp j _ hjp => ?_)
    (fun O' mono => ?_) fun _ k hw => absurd hidle hw.progress_ne_idle
  · cases hp
    exact free ((h.hand j).held asn peerName hjp)
  · have here : HandOk { w with locks := .peer asn peerName :: w.locks } O' (μ i) :=
      (h.hand i).relocked ids (fun a n hp => absurd hp (unheld _)) mono
    exact { here with
      held := fun a n hp => by
        cases hp
        exact List.mem_cons_self
      row := fun k hk => by
        obtain ⟨pair, hp, -⟩ := here.row k hk
        exact absurd hp (unheld pair)
      listener := fun hop => ⟨(here.listener hop).1, fun pair hp => by
        cases hp
        exact hhead hop⟩
      busy := fun row stage c rest hp => by
        rw [show (μ i).progress = .working row stage from hp] at hidle
        cases hidle }

lemma Tending.unlockPeer (hx : exec cfg o (.unlock (.peer asn peerName)) w = some ((), w'))
    (allowed : handAllowed (μ i) (.unlock (.peer asn peerName))) :
    Tending w' (Function.update μ i (μ i).released) := by
  obtain ⟨hpair, hdone⟩ := allowed
  obtain rfl := exec_unlock hx
  have released : (μ i).released.pair = none ∧ (μ i).released.op = (μ i).op := by
    unfold Hand.released
    split <;> exact ⟨rfl, rfl⟩
  have unheld : ∀ p, (μ i).released.pair ≠ some p := fun p hp => by
    rw [released.1] at hp
    cases hp
  have progress : (μ i).released.progress ≠ .idle → (μ i).progress ≠ .idle ∧
      (μ i).released.changes = (μ i).changes := by
    unfold Hand.released
    split
    · exact fun hp => absurd ‹_› hp
    · rename_i hbusy
      exact fun _ => ⟨hbusy, rfl⟩
  have others : ∀ j, j ≠ i → ∀ a n, (μ j).pair = some (a, n) →
      .peer a n ∈ w.locks.erase (.peer asn peerName) := fun j hj a n hp => by
    refine (List.mem_erase_of_ne fun he => ?_).mpr ((h.hand j).held a n hp)
    cases he
    exact hj (h.apart j i _ hp hpair)
  refine h.relocked ids alone released.2 progress others (fun p hp => absurd hp (unheld p))
    (fun _ mono => (h.hand i).released.relocked ids (fun a n hp => absurd hp (unheld _)) mono)
    fun mono k hw => ?_
  obtain ⟨row, stage, c, rest, hp, hc, rfl⟩ := hw
  obtain ⟨-, -, hd | ⟨same, reached⟩⟩ := (h.hand i).busy row stage c rest hp hc
  · exact .inr (.inl (hd.mono mono))
  · rcases hdone with hidle | ⟨row', stage', hp', complete⟩
    · rw [hp] at hidle
      cases hidle
    · rw [hp] at hp'
      cases hp'
      exact .inl ((reached.settled complete same).frame ids rfl fun _ _ => Iff.rfl)

/-- The lookup of an endpoint, well or badly ended. -/
lemma Tending.resolves (hm : m' = μ i ∨ m' = (μ i).failed) :
    Tending w (Function.update μ i m') := by
  rcases hm with rfl | rfl
  · rwa [Function.update_eq_self]
  · exact h.relocked ids alone rfl (fun hp => absurd rfl hp) (fun j _ => (h.hand j).held)
      (h.elsewhere rfl) (fun _ mono => (h.hand i).failed.relocked ids (h.hand i).held mono)
      fun _ k hw => .inr (.inl (h.reopened alone (fun _ => id) rfl hw))

end Calls

section Touches
variable {c : Io} {a : Except PeerError c.Value} {name : String}

lemma exec_onIface_tables (hn : OnIface name c) (hx : exec cfg o (.io c) w = some (a, w')) :
    w'.toTables = w.toTables ∧ w'.locks = w.locks := by
  have same := (exec_onIface hn hx).1
  exact ⟨by rw [same], by rw [same]⟩

/-- The next call of the listener brings the interface of its row to the next stage. -/
lemma Serves.reached {snapshot : Peer} {v : c.Value} (serves : Serves snapshot row stage c)
    (h : Reached w k row stage) (old : snapshot.ifaceName = wgpName k)
    (names : ∀ p, row = some p → p.ifaceName = wgpName k)
    (hx : exec cfg o (.io c) w = some (.ok v, w')) : Reached w' k row (stage.after c) := by
  cases serves with
  | ensure => exact linked_of_ensure hx
  | configure resolved => exact Linked.keyed h resolved hx
  | address => exact Keyed.configured h hx
  | remove =>
    rw [names _ rfl] at hx
    exact removed_of_delete hx
  | removeOld =>
    rw [old] at hx
    exact removed_of_delete hx

lemma Serves.onIface {snapshot : Peer} (serves : Serves snapshot row stage c)
    (old : snapshot.ifaceName = wgpName k) (names : ∀ p, row = some p → p.ifaceName = wgpName k) :
    OnIface (wgpName k) c := by
  cases serves <;> first | exact names _ rfl | exact old

/-- Without an open event, what recovery does keeps a settled row settled. -/
lemma Repairs.settled {peers : List Peer} {changes : List PeerChange}
    (repairs : Repairs peers changes c) (hn : OnIface (wgpName k) c)
    (hx : exec cfg o (.io c) w = some (a, w'))
    (names : ∀ p ∈ peers, p.ifaceName = wgpName p.peerId) (lists : Lists peers w.toTables k)
    (undeleted : ∀ d ∈ changes, c ≠ .deleteInterface d.peer.ifaceName) (hs : Settled w k) :
    Settled w' k := by
  have rows : w'.row? k = w.row? k := by rw [(exec_onIface_tables hn hx).1]
  have own : ∀ p ∈ peers, p.enabled = true → p.ifaceName = wgpName k →
      (OnIface p.ifaceName c → Configured p w → Configured p w') → Settled w' k := by
    intro p hp enabled hk repaired
    have hid : p.peerId = k := wgpName_inj.mp ((names p hp).symm.trans hk)
    have hr : w.row? k = some p := (lists p).mp ⟨hp, hid⟩
    rw [Settled, hr] at hs
    rw [Settled, rows, hr]
    rcases hs with ⟨active, set⟩ | ⟨disabled, -⟩
    · exact .inl ⟨active, repaired (hk ▸ hn) set⟩
    · simp [Peer.enabled, disabled] at enabled
  cases repairs with
  | @ensure p listed enabled =>
    exact own p listed enabled hn fun hc set => Configured.repaired set hx hc (.inl rfl)
  | @configure p endpoint listed enabled resolved =>
    exact own p listed enabled hn fun hc set =>
      Configured.repaired set hx hc (.inr (.inl ⟨endpoint, resolved, rfl⟩))
  | @address p listed enabled =>
    exact own p listed enabled hn fun hc set => Configured.repaired set hx hc (.inr (.inr rfl))
  | @remove name unlisted =>
    obtain rfl : name = wgpName k := hn
    rw [Settled] at hs ⊢
    rw [rows]
    cases hr : w.row? k with
    | none =>
      rw [hr] at hs
      exact exec_removes hs hx
    | some p =>
      rw [hr] at hs
      rcases hs with ⟨active, -⟩ | ⟨disabled, none⟩
      · obtain ⟨hp, hid⟩ := (lists p).mpr hr
        exact absurd (hid ▸ names p hp) (unlisted p hp (by simp [Peer.enabled, active]))
      · exact .inr ⟨disabled, exec_removes none hx⟩
  | @removeDeleted d queued => exact absurd rfl (undeleted d queued)

variable (h : Tending w μ) (ids : Identified w.toTables) (alone : Alone μ i)
include h ids alone

/-- A call on an interface by a task that works on no event does no harm where an event of the row is in
the queue, or the row stays settled. -/
lemma Tending.touch (hn : OnIface name c) (hx : exec cfg o (.io c) w = some (a, w'))
    (idle : (μ i).progress = .idle)
    (harmless : ∀ k, wgpName k = name → Due (Opened w μ) k ∨
      (∀ j, j ≠ i → ¬Works (μ j) k) ∧ (Settled w k → Settled w' k)) :
    Tending w' (Function.update μ i (μ i)) := by
  obtain ⟨tables, locks⟩ := exec_onIface_tables hn hx
  have idleWorks : ∀ k, ¬Works (μ i) k := fun k hw => hw.progress_ne_idle idle
  refine h.plain ids (.inr alone.recover) rfl (by rw [tables]; exact Grown.refl _)
    (by rw [tables]; exact List.Subset.refl _) (fun _ => .inl (by rw [tables])) (fun hp => ⟨hp, rfl⟩)
    (fun j _ a n hj => by rw [locks]; exact (h.hand j).held a n hj)
    (h.elsewhere rfl) (fun mono k => ?_) (fun mono _ rows => ?_)
    fun _ k hw => absurd hw (idleWorks k)
  · by_cases hk : wgpName k = name
    · rcases harmless k hk with hd | ⟨none, keep⟩
      · exact .inr (.inl (hd.mono mono))
      · exact .inr (.inr ⟨none, fun hs => .inl (keep hs)⟩)
    · exact .inl (exec_sameNamed hn hx hk)
  · exact (h.hand i).frame ids (fun a n hp => by rw [locks]; exact (h.hand i).held a n hp)
      (by rw [tables]; exact List.Subset.refl _) mono rows (fun k hw => absurd hw (idleWorks k))
      fun c hc => by rw [tables]; exact (h.hand i).queued c hc

/-- The listener goes on with the row of its event. -/
lemma Tending.serve {snapshot : PeerChange} {rest : List PeerChange}
    (hx : exec cfg o (.io c) w = some (a, w'))
    (hp : (μ i).progress = .working row stage) (hchanges : (μ i).changes = snapshot :: rest)
    (serves : Serves snapshot.peer row stage c) :
    Tending w' (Function.update μ i
      (match a with | .ok _ => (μ i).goesOn c | .error _ => (μ i).failed)) := by
  have hop := ((h.hand i).working (by simp [hp])).1
  have hc := (h.hand i).queued snapshot (by simp [hchanges])
  obtain ⟨-, names, hbusy⟩ := (h.hand i).busy row stage snapshot rest hp hchanges
  have old := Known.ifaceName ids (ids.eventBorn snapshot hc)
  have hn := Serves.onIface serves old names
  obtain ⟨tables, locks⟩ := exec_onIface_tables hn hx
  have others : ∀ j, j ≠ i → ∀ k, ¬Works (μ j) k := fun j hj k hw =>
    hw.progress_ne_idle (alone.listener hop j hj).1
  have works : ∀ k, Works (μ i) k → k = snapshot.peer.peerId := fun k hw => by
    obtain ⟨_, _, _, _, _, hd, hk⟩ := hw
    obtain ⟨rfl, -⟩ := List.cons.inj (hchanges.symm.trans hd)
    exact hk.symm
  have aside : ∀ k, k ≠ snapshot.peer.peerId → SameNamed (wgpName k) w w' := fun k hk =>
    exec_sameNamed hn hx fun he => hk (wgpName_inj.mp he)
  have grown : Grown w.toTables w'.toTables := by rw [tables]; exact Grown.refl _
  have born : w.born ⊆ w'.born := by rw [tables]; exact List.Subset.refl _
  have row? : ∀ k, w'.row? k = w.row? k := fun k => by rw [tables]
  have held : ∀ j asn peerName, (μ j).pair = some (asn, peerName) → .peer asn peerName ∈ w'.locks :=
    fun j asn peerName hj => by rw [locks]; exact (h.hand j).held asn peerName hj
  have own : ∀ O', (∀ e, Opened w μ e → O' e) → HandOk w' O' (μ i).failed := fun O' mono =>
    (h.hand i).failed.frame ids (held i) born mono (fun k => .inl (row? k))
      (fun k hw => absurd rfl hw.progress_ne_idle) fun d hd => grown.mem ((h.hand i).queued d hd)
  cases a with
  | error e =>
    have due : Due (Opened w' (Function.update μ i (μ i).failed)) snapshot.peer.peerId :=
      h.reopened alone (fun _ => grown.mem) rfl ⟨row, stage, snapshot, rest, hp, hchanges, rfl⟩
    refine h.plain ids (.inr alone.recover) rfl grown born (fun k => .inl (row? k))
      (fun hp => absurd rfl hp) (fun j _ => held j) (h.elsewhere rfl) (fun _ k => ?_)
      (fun mono _ _ => own _ mono) fun _ k hw => .inr (.inl (works k hw ▸ due))
    by_cases hk : k = snapshot.peer.peerId
    · exact .inr (.inl (hk ▸ due))
    · exact .inl (aside k hk)
  | ok v =>
    have goesOn : ((μ i).goesOn c).progress = .working row (stage.after c) := by
      simp only [Hand.goesOn, hp]
    have still : Works ((μ i).goesOn c) snapshot.peer.peerId :=
      ⟨row, _, snapshot, rest, goesOn, hchanges, rfl⟩
    refine h.plain ids (.inr alone.recover) rfl grown born (fun k => .inl (row? k))
      (fun _ => ⟨by simp [hp], rfl⟩) (fun j _ => held j) (h.elsewhere rfl) (fun _ k => ?_)
      (fun mono _ _ => ?_) fun _ k hw => .inr (.inr (works k hw ▸ still))
    · by_cases hk : k = snapshot.peer.peerId
      · exact .inr (.inr ⟨fun j hj => others j hj k, fun _ => .inr (hk ▸ still)⟩)
      · exact .inl (aside k hk)
    · exact
        { own _ mono with
          working := fun _ => ⟨hop, by simp [Hand.goesOn, hchanges]⟩
          busy := fun row' stage' d rest' hw hd => by
            rw [goesOn] at hw
            cases hw
            obtain ⟨rfl, -⟩ := List.cons.inj (hchanges.symm.trans hd)
            refine ⟨((h.hand i).busy row stage snapshot rest hp hchanges).1, names, ?_⟩
            rcases hbusy with hd | ⟨same, reached⟩
            · exact .inl (hd.mono mono)
            · exact .inr ⟨(row? _).trans same, Serves.reached serves reached old names hx⟩ }

/-- Every call on an interface is one of these. -/
lemma Tending.touches
    (hn : OnIface name c) (hx : exec cfg o (.io c) w = some (a, w')) (touches : Touches (μ i) name c) :
    Tending w' (Function.update μ i
      (match a with | .ok _ => (μ i).goesOn c | .error _ => (μ i).failed)) := by
  have quiet : (μ i).progress = .idle → (∀ k, wgpName k = name → Due (Opened w μ) k ∨
      (∀ j, j ≠ i → ¬Works (μ j) k) ∧ (Settled w k → Settled w' k)) →
      Tending w' (Function.update μ i
        (match a with | .ok _ => (μ i).goesOn c | .error _ => (μ i).failed)) := fun idle harmless => by
    rw [goesOn_of_idle idle, failed_of_idle idle]
    cases a <;> exact h.touch ids alone hn hx idle harmless
  rcases touches with ⟨owes, k, hk, rfl⟩ | ⟨row, stage, d, rest, hp, hd, serves⟩ | ⟨peers, hp, repairs⟩
  · refine quiet ?_ fun k' he => ?_
    · by_contra hp
      rw [((h.hand i).listener ((h.hand i).working hp).1).1] at hk
      cases hk
    · obtain ⟨k', hk', hd⟩ := (h.hand i).owed owes
      rw [hk] at hk'
      cases hk'
      exact .inl (wgpName_inj.mp he ▸ hd)
  · exact h.serve ids alone hx hp hd serves
  · obtain ⟨hop, names, lists⟩ := (h.hand i).listed peers hp
    have idle : ∀ j, (μ j).progress = .idle := fun j => by
      by_contra hp
      have listens := ((h.hand j).working hp).1
      rw [alone.recover hop j] at listens
      cases listens
    refine quiet (idle i) fun k hk => ?_
    subst hk
    rcases lists k with hd | hl
    · exact .inl hd
    · by_cases hdel : ∃ d ∈ (μ i).changes, c = .deleteInterface d.peer.ifaceName
      · obtain ⟨d, hd, rfl⟩ := hdel
        have hq := (h.hand i).queued d hd
        refine .inl ⟨d, ⟨hq, fun j _ _ hj => absurd (idle j) hj⟩, ?_⟩
        exact wgpName_inj.mp ((Known.ifaceName ids (ids.eventBorn d hq)).symm.trans hn)
      · exact .inr ⟨fun j _ hw => hw.progress_ne_idle (idle j),
          Repairs.settled repairs hn hx names hl fun d hd he => hdel ⟨d, hd, he⟩⟩

end Touches

/-- Every call keeps it. -/
theorem Tending.call {e : Call} {a : Answer e} (h : Tending w μ) (ids : Identified w.toTables)
    (alone : Alone μ i) (hx : exec cfg o e w = some (a, w')) (allowed : handAllowed (μ i) e) :
    Tending w' (Function.update μ i (handNext (μ i) e a)) := by
  cases e with
  | lock l =>
    cases l with
    | peer asn peerName => exact h.lockPeer ids alone hx allowed
    | _ => exact h.lock ids alone (fun _ _ => by simp) hx
  | unlock l =>
    cases l with
    | peer asn peerName => exact h.unlockPeer ids alone hx allowed
    | _ => exact h.unlock ids alone (fun _ _ => by simp) hx
  | resolveEndpoint text =>
    obtain rfl : w' = w := by
      cases o <;> simp only [exec, reduceCtorEq, Option.some.injEq, Prod.mk.injEq] at hx <;>
        exact hx.2.symm
    cases a with
    | ok address => exact h.resolves ids alone (.inl rfl)
    | error e => exact h.resolves ids alone (.inr rfl)
  | io c =>
    cases c with
    | getPeer asn peerName => exact h.getPeer ids alone hx allowed
    | getPeerById peerId => exact h.getPeerById ids alone hx allowed
    | listPeers => exact h.listPeers ids alone hx
    | listPeerChanges => exact h.listPeerChanges ids alone hx allowed
    | deletePeerChange eventId =>
      cases a <;> exact h.deletePeerChange ids alone hx allowed
    | reservePeer p test => exact h.reservePeer ids alone hx allowed
    | updatePeerDesired q => exact h.updatePeerDesired ids alone hx allowed
    | setStatus peerId status => exact h.setStatus ids alone hx allowed
    | deletePeer peerId => exact h.deletePeer ids alone hx allowed
    | ensureWgInterface name peerId mtu =>
      have kept := h.touches (c := .ensureWgInterface name peerId mtu) ids alone rfl hx
        (allowed name rfl)
      cases a <;> exact kept
    | configurePeer name listenPort pubkey endpoint =>
      have kept := h.touches (c := .configurePeer name listenPort pubkey endpoint) ids alone rfl hx
        (allowed name rfl)
      cases a <;> exact kept
    | configureLocalAddress name address =>
      have kept := h.touches (c := .configureLocalAddress name address) ids alone rfl hx
        (allowed name rfl)
      cases a <;> exact kept
    | deleteInterface name =>
      have kept := h.touches (c := .deleteInterface name) ids alone rfl hx (allowed name rfl)
      cases a <;> exact kept
    | _ =>
      cases a with
      | ok v => exact h.io_goesOn ids alone hx trivial fun _ => id
      | error e => exact h.io_failed ids alone hx trivial fun _ => id

/-- What the database answers is as the discipline says. -/
lemma hands_answer {e : Call} {a : Answer e} (ids : Identified w.toTables)
    (hx : exec cfg o e w = some (a, w')) : hands.answer m e a := by
  cases e with
  | io c =>
    cases a with
    | error e => cases c <;> trivial
    | ok v =>
      have he := exec_ok hx
      cases c with
      | getPeer asn peerName =>
        cases v with
        | none => trivial
        | some p =>
          obtain ⟨hrow, -⟩ : w.rowOf? asn peerName = some p ∧ w = w' := by simpa [effect] using he
          exact Known.ifaceName ids (ids.rowBorn p (rowOf?_some hrow).1)
      | getPeerById peerId =>
        cases v with
        | none => trivial
        | some p =>
          obtain ⟨hrow, -⟩ : w.row? peerId = some p ∧ w = w' := by simpa [effect] using he
          obtain ⟨hp, rfl⟩ := row?_some hrow
          exact ⟨row?_ifaceName ids hrow, rfl⟩
      | listPeers =>
        obtain ⟨rfl, -⟩ : w.listPeers cfg = v ∧ w = w' := by simpa [effect] using he
        exact ⟨fun p hp => Known.ifaceName ids (ids.rowBorn p (mem_listPeers.mp hp)),
          ((List.perm_insertionSort _ _).map _).nodup_iff.mpr ids.rowIds⟩
      | _ => trivial
  | _ => trivial

section Tasks
variable {op : Op}

/-- A new task has nothing and knows nothing yet. -/
lemma HandOk.start : HandOk w O (.start op) where
  held := fun _ _ hp => by cases hp
  row := fun _ hk => by cases hk
  owed := fun ho => by cases ho
  queued := fun c hc => by cases hc
  distinct := List.nodup_nil
  listener := fun _ => ⟨rfl, fun _ hp => by cases hp⟩
  working := fun hp => absurd rfl hp
  busy := fun _ _ _ _ hp => by cases hp
  listed := fun _ hp => by cases hp
  request := fun _ _ => rfl

lemma Tending.start (h : Tending w μ) (ids : Identified w.toTables) (hi : μ i = .start .recover)
    (ended : ∀ j, (μ j).op = .recover → μ j = .start .recover) (hop : op ≠ .recover) :
    Tending w (Function.update μ i (.start op)) := by
  have mono : ∀ e, Opened w μ e → Opened w (Function.update μ i (.start op)) e := fun e he =>
    he.mono he.1 (fun hp => by rw [Function.update_self] at hp; exact absurd rfl hp)
      fun j hj => Function.update_of_ne hj ..
  refine ⟨fun j => ?_, fun j k pair hj hk => ?_, fun j k hj => .inl ?_, fun k => ?_⟩
  · rcases eq_or_ne j i with rfl | hji
    · rw [Function.update_self]
      exact .start
    · rw [Function.update_of_ne hji]
      exact (h.hand j).frame ids (h.hand j).held (List.Subset.refl _) mono (fun _ => .inl rfl)
        (fun _ _ => .inl fun _ _ => Iff.rfl) (h.hand j).queued
  · rcases eq_or_ne j i with rfl | hji
    · rw [Function.update_self] at hj
      cases hj
    · rcases eq_or_ne k i with rfl | hki
      · rw [Function.update_self] at hk
        cases hk
      · rw [Function.update_of_ne hji] at hj
        rw [Function.update_of_ne hki] at hk
        exact h.apart j k pair hj hk
  · rcases eq_or_ne j i with rfl | hji
    · rw [Function.update_self] at hj
      exact absurd hj hop
    · rw [Function.update_of_ne hji] at hj ⊢
      exact ended j hj
  · rcases h.right k with hs | hd | ⟨j, hw⟩
    · exact .inl hs
    · exact .inr (.inl (hd.mono mono))
    · refine .inr (.inr ⟨j, ?_⟩)
      rwa [Function.update_of_ne]
      rintro rfl
      obtain ⟨row, stage, c, rest, hp, -⟩ := hw
      rw [hi] at hp
      cases hp

open Classical in
/-- Recovery that has ended is forgotten. -/
noncomputable def forgetting (μ : ℕ → Hand) (j : ℕ) : Hand :=
  if (μ j).op = .recover then .start .recover else μ j

lemma forgetting_op {j : ℕ} : (forgetting μ j).op = (μ j).op := by
  unfold forgetting
  split
  · rename_i h
    exact h.symm
  · rfl

lemma forgetting_recover {j : ℕ} (h : (forgetting μ j).op = .recover) :
    forgetting μ j = .start .recover := if_pos (forgetting_op.symm.trans h)

lemma forgetting_of_ne {j : ℕ} (h : forgetting μ j ≠ .start .recover) : forgetting μ j = μ j :=
  if_neg fun hop => h (if_pos hop)

lemma Tending.forgetting (h : Tending w μ) (ids : Identified w.toTables) :
    Tending w (forgetting μ) := by
  have mono : ∀ e, Opened w μ e → Opened w (InterfaceTending.forgetting μ) e :=
    fun e he => ⟨he.1, fun j c rest hp hc => by
      have same := forgetting_of_ne (μ := μ) (j := j) fun hs => hp (by rw [hs]; rfl)
      rw [same] at hp hc
      exact he.2 j c rest hp hc⟩
  refine ⟨fun j => ?_, fun j k pair hj hk => ?_, fun j k hj => .inl (forgetting_recover hj), fun k => ?_⟩
  · by_cases hs : InterfaceTending.forgetting μ j = .start .recover
    · rw [hs]
      exact .start
    · rw [forgetting_of_ne hs]
      exact (h.hand j).frame ids (h.hand j).held (List.Subset.refl _) mono (fun _ => .inl rfl)
        (fun _ _ => .inl fun _ _ => Iff.rfl) (h.hand j).queued
  · rw [forgetting_of_ne fun hs => by rw [hs] at hj; cases hj] at hj
    rw [forgetting_of_ne fun hs => by rw [hs] at hk; cases hk] at hk
    exact h.apart j k pair hj hk
  · rcases h.right k with hs | hd | ⟨j, hw⟩
    · exact .inl hs
    · exact .inr (.inl (hd.mono mono))
    · refine .inr (.inr ⟨j, ?_⟩)
      have hop : (μ j).op ≠ .recover := by
        obtain ⟨row, stage, c, rest, hp, -⟩ := hw
        rw [((h.hand j).working (by simp [hp])).1]
        simp
      rwa [InterfaceTending.forgetting, if_neg hop]

/-- An administrator writes a row. -/
lemma Tending.withTables {t : Tables} (h : Tending w μ) (ids : Identified w.toTables)
    (grown : Grown w.toTables t) (born : w.born ⊆ t.born) (rows : ∀ k, RowMoved w.toTables t k) :
    Tending (w.withTables t) μ := by
  have same : ∀ k, SameNamed (wgpName k) w (w.withTables t) := fun _ => sameNamed_of_eq rfl
  have kept : Tending (w.withTables t) (Function.update μ 0 (μ 0)) :=
    h.plain ids (.inl rfl) rfl grown born rows (fun hp => ⟨hp, rfl⟩) (fun j _ => (h.hand j).held)
      (fun p hp j hj hjp => hj (h.apart j 0 p hjp hp)) (fun _ k => .inl (same k))
      (fun mono _ moved => (h.hand 0).frame ids (h.hand 0).held born mono moved
        (fun k _ => .inl (same k)) fun c hc => grown.mem ((h.hand 0).queued c hc))
      fun _ _ hw => .inr (.inr hw)
  rwa [Function.update_eq_self] at kept

/-- In any state the id is settled, or an event of it is in the queue. -/
lemma Tending.settled (h : Tending w μ) (k : UInt32) :
    Settled w k ∨ ∃ e ∈ w.events, e.peer.peerId = k := by
  rcases h.right k with hs | ⟨e, he, hk⟩ | ⟨j, row, stage, c, rest, hp, hc, hk⟩
  · exact .inl hs
  · exact .inr ⟨e, he.1, hk⟩
  · exact .inr ⟨c, (h.hand j).queued c (by simp [hc]), hk⟩

/-- The process has ended, so nothing but the world is left. -/
lemma Tending.stopped (h : ∀ k, Settled w k ∨ ∃ e ∈ w.events, e.peer.peerId = k) :
    Tending w fun _ => .start .recover where
  hand := fun _ => .start
  apart := fun _ _ _ hj => by cases hj
  lone := fun _ _ _ => .inl rfl
  right := fun k => (h k).imp_right fun queued => by
    obtain ⟨e, he, hk⟩ := queued
    exact .inl ⟨e, ⟨he, fun _ _ _ hp => absurd rfl hp⟩, hk⟩

end Tasks

end Autopeer.InterfaceTending
