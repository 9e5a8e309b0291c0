import Autopeer.ManagerRules
import Autopeer.ManagerFootprints
import Autopeer.OperationEffects

/-! Why the tasks never wait for each other in a circle. Each takes its locks in one order, a database
connection comes last, and who has a connection waits for nothing. -/
namespace Autopeer.LockOrder
open PeerData ProgramTree ProgramPool TransitionRuns
open ManagerWorld ManagerPrograms ManagerSystem ManagerFootprints ManagerRules

variable {cfg : Config} {α β : Type}

section Order

/-- The order in which a task takes its locks. -/
def lockRank : Lock → ℕ
  | .peer .. => 0
  | .port => 1
  | .nft | .bird => 2

/-- A task takes a lock only above all that it holds, and releases only what it holds. -/
def lockAllowed (held : List Lock) : Call → Prop
  | .lock l => ∀ k ∈ held, lockRank k < lockRank l
  | .unlock l => l ∈ held
  | _ => True

def lockNext (held : List Lock) : (e : Call) → Answer e → List Lock
  | .lock l, _ => l :: held
  | .unlock l, _ => held.erase l
  | _, _ => held

def ordered : Discipline Call Answer (List Lock) := ⟨[], lockAllowed, fun _ _ _ => True, lockNext⟩

variable {held : List Lock} {p : Peer}

/-- The action keeps to the order and releases what it took, well or badly ended. -/
def Balanced (held : List Lock) (x : Manager α) : Prop :=
  Follows ordered x.run held fun after _ => after = held

lemma balanced_return {a : α} : Balanced held (return a : Manager α) := rfl

lemma balanced_throw {error : PeerError} : Balanced held (throw error : Manager α) := rfl

lemma balanced_io {c : Io} : Balanced held (io c) := ⟨trivial, fun _ _ => rfl⟩

lemma Balanced.bind {x : Manager α} {f : α → Manager β} (hx : Balanced held x)
    (hf : ∀ a, Balanced held (f a)) : Balanced held (x >>= f) :=
  Follows.run_bind hx (fun _ a h => h ▸ hf a) fun _ _ h => h

lemma Balanced.attempt_bind {x : Manager α} {f : Except PeerError α → Manager β}
    (hx : Balanced held x) (hf : ∀ r, Balanced held (f r)) : Balanced held (attempt x >>= f) :=
  follows_attempt_bind (hx.mono fun _ r h => h ▸ hf r)

lemma Balanced.forM {f : α → Manager PUnit} {xs : List α} (hf : ∀ x ∈ xs, Balanced held (f x)) :
    Balanced held (xs.forM f) :=
  Follows.forM (I := fun after => after = held) rfl fun x hx _ h => h ▸ hf x hx

lemma Balanced.withLock {l : Lock} {body : Manager α} (above : ∀ k ∈ held, lockRank k < lockRank l)
    (hb : Balanced (l :: held) body) : Balanced held (withLock l body) := by
  refine follows_withLock above fun _ => hb.mono fun after _ h => ?_
  rw [h]
  exact ⟨List.mem_cons_self, fun _ => List.erase_cons_head l held⟩

/-- The locks of the shared state may still be taken. -/
def Shares (held : List Lock) : Prop := ∀ k ∈ held, lockRank k < 2

lemma balanced_syncNftPortsFor (h : Shares held) (peers : List Peer) :
    Balanced held (syncNftPortsFor peers) := .withLock h balanced_io

lemma balanced_syncBirdConfigsFor (h : Shares held) (peers : List Peer) (forceReload : Bool) :
    Balanced held (syncBirdConfigsFor peers forceReload) := .withLock h balanced_io

lemma balanced_syncNftPorts (h : Shares held) : Balanced held syncNftPorts :=
  balanced_io.bind fun _ => balanced_syncNftPortsFor h _

lemma balanced_syncBirdConfigs (h : Shares held) : Balanced held syncBirdConfigs :=
  balanced_io.bind fun _ => balanced_syncBirdConfigsFor h _ _

lemma balanced_resolveOptional (text : Option String) : Balanced held (resolveOptional text) := by
  cases text with
  | none => exact balanced_return
  | some text =>
    have resolve : Balanced held (resolveEndpoint text) := ⟨trivial, fun _ _ => rfl⟩
    exact resolve.bind fun _ => balanced_return

lemma balanced_applyWireguard : Balanced held (applyWireguard p) :=
  balanced_io.bind fun _ => (balanced_resolveOptional _).bind fun _ =>
    balanced_io.bind fun _ => balanced_io

lemma balanced_applyPeer (h : Shares held) : Balanced held (applyPeer p) :=
  balanced_applyWireguard.bind fun _ => balanced_syncBirdConfigs h

lemma balanced_removeExternalState (h : Shares held) : Balanced held (removeExternalState p) :=
  (balanced_syncBirdConfigs h).bind fun _ => balanced_io

lemma balanced_compensateFailedCreate (h : Shares held) :
    Balanced held (compensateFailedCreate p) := by
  refine balanced_io.attempt_bind fun _ => ?_
  refine (balanced_removeExternalState h).attempt_bind fun r => ?_
  cases r with
  | ok _ =>
    refine balanced_io.attempt_bind fun _ => ?_
    exact (balanced_syncNftPorts h).attempt_bind fun _ => balanced_return
  | error _ => exact (balanced_syncNftPorts h).attempt_bind fun _ => balanced_return

lemma balanced_compensateFailedUpdate (h : Shares held) :
    Balanced held (compensateFailedUpdate p) := by
  refine balanced_io.attempt_bind fun r => ?_
  cases r with
  | error _ => exact balanced_return
  | ok _ =>
    refine (balanced_applyPeer h).attempt_bind fun r => ?_
    cases r with
    | error _ => exact balanced_return
    | ok _ => exact balanced_io.attempt_bind fun _ => balanced_return

lemma balanced_provision (h : Shares held) (asn : UInt32) : Balanced held (provision asn p) := by
  have undo : ∀ error, Balanced held
      (compensateFailedCreate p >>= fun _ => throw error : Manager Peer) := fun error =>
    (balanced_compensateFailedCreate h).bind fun _ => balanced_throw
  refine (balanced_applyPeer h).attempt_bind fun r => ?_
  cases r with
  | error error => exact undo error
  | ok _ =>
    refine (balanced_syncNftPorts h).attempt_bind fun r => ?_
    cases r with
    | error error => exact undo error
    | ok _ =>
      refine balanced_io.attempt_bind fun r => ?_
      match r with
      | .ok true => exact balanced_return
      | .ok false => exact undo _
      | .error error => exact undo error

lemma balanced_reprovision (h : Shares held) (asn : UInt32) (peerName : String) {q : Peer} :
    Balanced held (reprovision asn peerName p q) := by
  refine (balanced_applyPeer h).attempt_bind fun r => ?_
  cases r with
  | error error => exact (balanced_compensateFailedUpdate h).bind fun _ => balanced_throw
  | ok _ =>
    refine balanced_io.bind fun stored => ?_
    cases stored with
    | true => exact balanced_return
    | false => exact balanced_throw

lemma balanced_dismantle (h : Shares held) (asn : UInt32) (peerName : String) :
    Balanced held (dismantle asn peerName p) := by
  refine (balanced_syncNftPorts h).attempt_bind fun r => ?_
  cases r with
  | error error => exact balanced_io.attempt_bind fun _ => balanced_throw
  | ok _ =>
    refine (balanced_removeExternalState h).attempt_bind fun r => ?_
    cases r with
    | error error =>
      refine balanced_io.attempt_bind fun r => ?_
      cases r with
      | error _ => exact balanced_throw
      | ok _ =>
        refine (balanced_applyPeer h).attempt_bind fun r => ?_
        cases r with
        | error _ => exact balanced_throw
        | ok _ => exact (balanced_syncNftPorts h).attempt_bind fun _ => balanced_throw
    | ok _ =>
      refine balanced_io.bind fun deleted => ?_
      cases deleted with
      | true => exact balanced_return
      | false => exact balanced_throw

lemma shares_peer (asn : UInt32) (peerName : String) : Shares [.peer asn peerName] := by
  simp [Shares, lockRank]

lemma balanced_reservePeer {asn : UInt32} {peerName : String} {pubkey : WgPubKey}
    {endpoint : Option String} {linkLocal : Option (Ipv6.Ipv6Addr × Ipv6.Ipv6Addr)} {mtu : UInt16} :
    Balanced held (reservePeer cfg asn peerName pubkey endpoint linkLocal mtu) := by
  refine Balanced.bind (balanced_io.bind fun peerId => ?_) fun peerId => ?_
  · split
    · exact balanced_return
    · exact balanced_throw
  · generalize List.range 10000 = increments
    exact Follows.of_calls (calls_reserveFrom ⟨⟨trivial, fun _ => rfl⟩, fun _ => ⟨trivial, fun _ => rfl⟩⟩
      fun _ => ⟨trivial, fun _ => rfl⟩)

theorem balanced_createPeer {asn : UInt32} {peerName : String} {pubkey : WgPubKey}
    {endpoint : Option String} {linkLocal : Option (Ipv6.Ipv6Addr × Ipv6.Ipv6Addr)}
    {mtu : Option UInt16} :
    Balanced [] (createPeer cfg asn peerName pubkey endpoint linkLocal mtu) := by
  refine .withLock (by simp) (balanced_io.bind fun taken => ?_)
  cases taken with
  | true => exact balanced_throw
  | false =>
    refine Balanced.bind (.withLock (by simp [lockRank]) balanced_reservePeer) fun peer => ?_
    split
    · exact balanced_return
    · exact balanced_provision (shares_peer asn peerName) asn

lemma balanced_orNotFound {asn : UInt32} {peerName : String} (row : Option Peer) :
    Balanced held (orNotFound asn peerName row) := by
  cases row with
  | none => exact balanced_throw
  | some peer => exact balanced_return

theorem balanced_updatePeer {asn : UInt32} {peerName : String} {pubkey : WgPubKey}
    {endpoint : Option (Option String)} {linkLocal : Option (Ipv6.Ipv6Addr × Ipv6.Ipv6Addr)}
    {mtu : Option (Option UInt16)} :
    Balanced [] (updatePeer cfg asn peerName pubkey endpoint linkLocal mtu) := by
  refine .withLock (by simp) (balanced_io.bind fun row => (balanced_orNotFound row).bind
    fun oldPeer => ?_)
  split
  · exact balanced_throw
  · refine balanced_io.bind fun stored => ?_
    cases stored with
    | true => exact balanced_reprovision (shares_peer asn peerName) asn peerName
    | false => exact balanced_throw

theorem balanced_deletePeer {asn : UInt32} {peerName : String} :
    Balanced [] (deletePeer asn peerName) := by
  refine .withLock (by simp) (balanced_io.bind fun row => (balanced_orNotFound row).bind
    fun peer => balanced_io.bind fun marked => ?_)
  cases marked with
  | true => exact balanced_dismantle (shares_peer asn peerName) asn peerName
  | false => exact balanced_throw

lemma balanced_settleRow (h : Shares held) (snapshot : Peer) (row : Option Peer) :
    Balanced held (settleRow snapshot row) := by
  cases row with
  | none => exact balanced_removeExternalState h
  | some peer =>
    simp only [settleRow]
    split
    · refine (balanced_applyPeer h).bind fun _ => ?_
      split
      · refine balanced_io.bind fun stored => ?_
        cases stored with
        | true => exact balanced_return
        | false => exact balanced_throw
      · exact balanced_return
    · split
      · refine (balanced_removeExternalState h).bind fun _ => balanced_io.bind fun deleted => ?_
        cases deleted with
        | true => exact balanced_return
        | false => exact balanced_throw
      · exact balanced_removeExternalState h

lemma balanced_applyPeerChange (change : PeerChange) : Balanced [] (applyPeerChange change) :=
  .withLock (by simp) <| balanced_io.bind fun row =>
    (balanced_settleRow (shares_peer _ _) _ row).bind fun _ => balanced_syncNftPorts (shares_peer _ _)

lemma balanced_processChanges (first : Option PeerError) (changes : List PeerChange) :
    Balanced [] (processChanges first changes) := by
  induction changes generalizing first with
  | nil =>
    cases first with
    | none => exact balanced_return
    | some error => exact balanced_throw
  | cons change changes ih =>
    refine Balanced.bind ((balanced_applyPeerChange change).attempt_bind fun r => ?_) fun _ => ih _
    cases r with
    | error error => exact balanced_return
    | ok _ =>
      refine balanced_io.attempt_bind fun r => ?_
      cases r <;> exact balanced_return

theorem balanced_syncPendingPeerChanges : Balanced [] syncPendingPeerChanges :=
  balanced_io.bind fun changes => balanced_processChanges none changes

lemma shares_nil : Shares [] := by simp [Shares]

theorem balanced_recover : Balanced [] recover := by
  refine balanced_io.bind fun peers => ?_
  refine (Balanced.forM fun p _ => balanced_applyWireguard).bind fun _ => ?_
  refine (balanced_syncNftPortsFor shares_nil _).bind fun _ => ?_
  refine (balanced_syncBirdConfigsFor shares_nil _ _).bind fun _ => ?_
  refine (Balanced.forM fun p _ => .withLock (by simp) balanced_io).bind fun _ => ?_
  refine balanced_io.bind fun managed => (Balanced.forM fun name _ => ?_).bind fun _ => ?_
  · unfold removeUnlessDesired
    split
    · exact balanced_return
    · exact balanced_io
  refine balanced_io.bind fun changes => (Balanced.forM fun change _ => ?_).bind fun _ => ?_
  · unfold removeDeleted
    split
    · refine balanced_io.bind fun row => ?_
      split
      · exact balanced_io
      · exact balanced_return
    · exact balanced_return
  refine (Balanced.forM fun p _ => ?_).bind fun _ => Balanced.forM fun p _ => ?_
  · refine balanced_io.bind fun deleted => ?_
    cases deleted with
    | true => exact balanced_return
    | false => exact balanced_throw
  · refine .withLock (by simp) (balanced_io.bind fun stored => ?_)
    cases stored with
    | true => exact balanced_return
    | false => exact balanced_throw

/-- Every task takes its locks in the order and ends with none. -/
theorem follows_program (op : Op) : Follows ordered (program cfg op) [] fun held _ => held = [] := by
  cases op with
  | createPeer => exact follows_answerPeer balanced_createPeer
  | updatePeer => exact follows_answerPeer balanced_updatePeer
  | deletePeer => exact follows_answerPeer balanced_deletePeer
  | syncPendingPeerChanges => exact follows_answerNone balanced_syncPendingPeerChanges
  | syncNftPorts => exact follows_answerNone (balanced_syncNftPorts shares_nil)
  | recover => exact follows_answerNone balanced_recover

end Order

section Connections

/-- A call of a task, or of the connection pool. -/
inductive PoolCall
  | direct (e : Call)
  | acquire
  | release
  deriving DecidableEq

abbrev PoolAnswer : PoolCall → Type
  | .direct e => Answer e
  | .acquire => Except PeerError Unit
  | .release => Unit

def onDatabase : Io → Bool
  | .peerExists .. | .getPeer .. | .getPeerById _ | .listPeers | .listPeerChanges
  | .deletePeerChange _ | .nextPeerId | .reservePeer .. | .updatePeerDesired _ | .setStatus ..
  | .deletePeer _ => true
  | _ => false

/-- A function on the database takes a connection first and gives it back at its end. -/
def access (e : Call) (next : Answer e → Program PoolCall PoolAnswer α) :
    Program PoolCall PoolAnswer α :=
  match e, next with
  | .io c, next =>
    if onDatabase c then
      .call .acquire fun acquired =>
        match acquired with
        | .error error => next (.error error)
        | .ok _ => .call (.direct (.io c)) fun answer => .call .release fun _ => next answer
    else .call (.direct (.io c)) next
  | e, next => .call (.direct e) next

def pooled : Program Call Answer α → Program PoolCall PoolAnswer α
  | .done a => .done a
  | .call e next => access e fun answer => pooled (next answer)

/-- The world with the connections of the pool that nobody has. -/
structure Backend extends World where
  idle : ℕ

def poolExec (cfg : Config) : Outcome → (e : PoolCall) → Backend → Option (PoolAnswer e × Backend)
  | o, .direct e, b => (exec cfg o e b.toWorld).map fun x => (x.1, { b with toWorld := x.2 })
  | .ok, .acquire, b => if b.idle = 0 then none else some (.ok (), { b with idle := b.idle - 1 })
  | .fail error, .acquire, b => some (.error error, b)
  | .ok, .release, b => some ((), { b with idle := b.idle + 1 })
  | _, _, _ => none

/-- What a task has. -/
structure Held where
  locks : List Lock
  connection : Bool

def Held.nothing : Held := ⟨[], false⟩

/-- With a connection a task makes the one call it took it for. -/
def poolAllowed (m : Held) : PoolCall → Prop
  | .direct (.io c) => m.connection = onDatabase c
  | .direct e => m.connection = false ∧ lockAllowed m.locks e
  | .acquire => m.connection = false
  | .release => m.connection = true

def poolNext (m : Held) : (e : PoolCall) → PoolAnswer e → Held
  | .direct e, answer => { m with locks := lockNext m.locks e answer }
  | .acquire, .ok _ => { m with connection := true }
  | .acquire, .error _ => m
  | .release, _ => { m with connection := false }

def poolOrdered : Discipline PoolCall PoolAnswer Held :=
  ⟨.nothing, poolAllowed, fun _ _ _ => True, poolNext⟩

/-- The connections add nothing that a task could wait with. -/
theorem follows_pooled {p : Program Call Answer α} {held : List Lock} {Q : List Lock → α → Prop}
    (h : Follows ordered p held Q) :
    Follows poolOrdered (pooled p) ⟨held, false⟩ fun m a => m.connection = false ∧ Q m.locks a := by
  induction p generalizing held with
  | done a => exact ⟨rfl, h⟩
  | call e next ih =>
    have rest := fun answer => ih answer (h.2 answer trivial)
    cases e with
    | io c =>
      simp only [pooled, access]
      split
      · rename_i hc
        refine ⟨rfl, fun acquired _ => ?_⟩
        cases acquired with
        | error error => exact rest (.error error)
        | ok u => exact ⟨hc.symm, fun answer _ => ⟨rfl, fun _ _ => rest answer⟩⟩
      · rename_i hc
        exact ⟨by simpa [poolOrdered, poolAllowed] using hc, fun answer _ => rest answer⟩
    | lock l => exact ⟨⟨rfl, h.1⟩, fun answer _ => rest answer⟩
    | unlock l => exact ⟨⟨rfl, h.1⟩, fun answer _ => rest answer⟩
    | resolveEndpoint text => exact ⟨⟨rfl, h.1⟩, fun answer _ => rest answer⟩

end Connections

section Service

abbrev Service := Pool Backend Op PoolCall PoolAnswer Reply

variable {size : ℕ} {s s' : Service} {i : ℕ}

inductive Event
  /-- A task makes its next call. -/
  | task (index : ℕ) (outcome : Outcome)
  | start (op : Op)
  /-- Other sessions change the tables. -/
  | sql (tables : Tables)

/-- Any number of tasks of every kind, with calls in any order and any outcome. -/
def serve (cfg : Config) : Event → Service → Option Service
  | .task index outcome, s => s.stepTask (poolExec cfg) index outcome
  | .start op, s => some (s.spawn op (pooled (program cfg op)))
  | .sql tables, s => some { s with world := { s.world with toTables := tables } }

/-- The listener for notifications has one of the connections for good. -/
def booted (size : ℕ) (w : World) : Service :=
  ⟨{ toWorld := { w with locks := [] }, idle := size - 1 }, []⟩

inductive Resource
  | lock (l : Lock)
  | connection

def rank : Resource → ℕ
  | .lock l => lockRank l
  | .connection => 3

def Held.has (m : Held) : Resource → Prop
  | .lock l => l ∈ m.locks
  | .connection => m.connection = true

def Unfinished (s : Service) (i : ℕ) : Prop := ∃ op e next, s.tasks[i]? = some (op, .call e next)

/-- The next call of the task is for a resource that is taken. -/
def Waits (s : Service) (i : ℕ) : Resource → Prop
  | .lock l => ∃ op next, s.tasks[i]? = some (op, .call (.direct (.lock l)) next) ∧ l ∈ s.world.locks
  | .connection => ∃ op next, s.tasks[i]? = some (op, .call .acquire next) ∧ s.world.idle = 0

/-- What is taken is what the tasks have. -/
structure Accounted (size : ℕ) (b : Backend) (μ : ℕ → Held) : Prop where
  nodup : b.locks.Nodup
  locks : ∀ l ∈ b.locks, ∃ i, l ∈ (μ i).locks
  connections : ∃ holders : Finset ℕ, (∀ i, i ∈ holders ↔ (μ i).connection = true) ∧
    b.idle + holders.card = size - 1

def InOrder (size : ℕ) (s : Service) : Prop :=
  Keeps poolOrdered (fun _ m _ => m = .nothing) (Accounted size) s

lemma Accounted.same {b b' : Backend} {μ : ℕ → Held} (h : Accounted size b μ)
    (locks : b'.locks = b.locks) (idle : b'.idle = b.idle) : Accounted size b' μ :=
  ⟨locks ▸ h.nodup, locks ▸ h.locks, idle ▸ h.connections⟩

/-- The connection of a task is as before, its locks may have changed. -/
lemma Accounted.relocked {b b' : Backend} {μ : ℕ → Held} (h : Accounted size b μ) {locks : List Lock}
    (idle : b'.idle = b.idle) (nodup : b'.locks.Nodup)
    (held : ∀ l ∈ b'.locks, l ∈ locks ∨ ∃ j ≠ i, l ∈ (μ j).locks) :
    Accounted size b' (Function.update μ i { μ i with locks }) := by
  obtain ⟨holders, hmem, hcard⟩ := h.connections
  refine ⟨nodup, fun l hl => ?_, holders, fun j => ?_, idle ▸ hcard⟩
  · rcases held l hl with here | ⟨j, hj, there⟩
    · exact ⟨i, by rwa [Function.update_self]⟩
    · exact ⟨j, by rwa [Function.update_of_ne hj]⟩
  · rw [hmem]
    by_cases hj : j = i
    · rw [hj, Function.update_self]
    · rw [Function.update_of_ne hj]

/-- The locks of a task are as before, it took or gave back a connection. -/
lemma Accounted.connected {b b' : Backend} {μ : ℕ → Held} (h : Accounted size b μ) {connection : Bool}
    (locks : b'.locks = b.locks) (holders : Finset ℕ)
    (hmem : ∀ j, j ∈ holders ↔ if j = i then connection = true else (μ j).connection = true)
    (hcard : b'.idle + holders.card = size - 1) :
    Accounted size b' (Function.update μ i { μ i with connection }) := by
  refine ⟨locks ▸ h.nodup, fun l hl => ?_, holders, fun j => ?_, hcard⟩
  · obtain ⟨j, hj⟩ := h.locks l (locks ▸ hl)
    refine ⟨j, ?_⟩
    by_cases hji : j = i
    · rw [hji, Function.update_self]
      exact hji ▸ hj
    · rwa [Function.update_of_ne hji]
  · rw [hmem]
    by_cases hj : j = i
    · rw [if_pos hj, hj, Function.update_self]
    · rw [if_neg hj, Function.update_of_ne hj]

lemma accounted_direct {b : Backend} {w : World} {μ : ℕ → Held} (h : Accounted size b μ) {o : Outcome}
    {e : Call} {answer : Answer e} (allowed : poolAllowed (μ i) (.direct e))
    (hx : exec cfg o e b.toWorld = some (answer, w)) :
    Accounted size { b with toWorld := w }
      (Function.update μ i { μ i with locks := lockNext (μ i).locks e answer }) := by
  cases e with
  | lock l =>
    cases o <;> simp only [exec, Option.ite_none_left_eq_some, reduceCtorEq, Option.some.injEq,
      Prod.mk.injEq] at hx
    obtain ⟨free, -, rfl⟩ := hx
    refine h.relocked rfl (List.nodup_cons.mpr ⟨free, h.nodup⟩) fun k hk => ?_
    rcases List.mem_cons.mp hk with rfl | hk
    · exact .inl List.mem_cons_self
    · obtain ⟨j, hj⟩ := h.locks k hk
      by_cases hji : j = i
      · exact .inl (List.mem_cons_of_mem _ (hji ▸ hj))
      · exact .inr ⟨j, hji, hj⟩
  | unlock l =>
    rw [OperationEffects.exec_unlock hx]
    refine h.relocked rfl (h.nodup.erase l) fun k hk => ?_
    obtain ⟨hne, hk⟩ := h.nodup.mem_erase_iff.mp hk
    obtain ⟨j, hj⟩ := h.locks k hk
    by_cases hji : j = i
    · exact .inl ((List.mem_erase_of_ne hne).mpr (hji ▸ hj))
    · exact .inr ⟨j, hji, hj⟩
  | resolveEndpoint text =>
    have same : w = b.toWorld := by
      cases o <;> simp only [exec, reduceCtorEq, Option.some.injEq, Prod.mk.injEq] at hx
      all_goals exact hx.2.symm
    rw [same]
    exact (Function.update_eq_self i μ).symm ▸ h
  | io c =>
    have same : Accounted size { b with toWorld := w } μ :=
      h.same (ManagerEffects.exec_locks hx) rfl
    exact (Function.update_eq_self i μ).symm ▸ same

/-- Every call keeps the account. -/
lemma accounted_call {b b' : Backend} {μ : ℕ → Held} (h : Accounted size b μ) {o : Outcome}
    {e : PoolCall} {answer : PoolAnswer e} (allowed : poolAllowed (μ i) e)
    (hx : poolExec cfg o e b = some (answer, b')) :
    Accounted size b' (Function.update μ i (poolNext (μ i) e answer)) := by
  obtain ⟨holders, hmem, hcard⟩ := h.connections
  cases e with
  | direct e =>
    simp only [poolExec, Option.map_eq_some_iff, Prod.mk.injEq] at hx
    obtain ⟨⟨a, w⟩, hx, rfl, rfl⟩ := hx
    exact accounted_direct h allowed hx
  | acquire =>
    have free : i ∉ holders := fun hi => by
      rw [hmem] at hi
      exact Bool.false_ne_true (allowed.symm.trans hi)
    cases o with
    | ok =>
      simp only [poolExec, Option.ite_none_left_eq_some, Option.some.injEq, Prod.mk.injEq] at hx
      obtain ⟨some_idle, rfl, rfl⟩ := hx
      refine h.connected rfl (insert i holders) (fun j => ?_) ?_
      · by_cases hj : j = i
        · simp [hj]
        · simp [hj, hmem]
      · rw [Finset.card_insert_of_notMem free]
        dsimp only
        omega
    | fail error =>
      simp only [poolExec, Option.some.injEq, Prod.mk.injEq] at hx
      obtain ⟨rfl, rfl⟩ := hx
      exact (Function.update_eq_self i μ).symm ▸ h
    | _ => simp [poolExec] at hx
  | release =>
    have mine : i ∈ holders := (hmem i).mpr allowed
    cases o with
    | ok =>
      simp only [poolExec, Option.some.injEq, Prod.mk.injEq] at hx
      obtain ⟨-, rfl⟩ := hx
      refine h.connected rfl (holders.erase i) (fun j => ?_) ?_
      · by_cases hj : j = i
        · simp [hj]
        · simp [hj, hmem]
      · have := Finset.card_erase_add_one mine
        dsimp only
        omega
    | _ => simp [poolExec] at hx

theorem serve_inOrder (h : InOrder size s) {l : Event} (hs : serve cfg l s = some s') :
    InOrder size s' := by
  cases l with
  | task index outcome =>
    exact h.stepTask hs fun μ t e next r b ht hJ allowed hx =>
      ⟨trivial, accounted_call hJ allowed hx⟩
  | start op =>
    obtain ⟨μ, hob, hJ⟩ := h
    cases hs
    refine ⟨_, hob.spawn (m := .nothing) ?_, ?_⟩
    · refine (follows_pooled (follows_program op)).mono fun m _ h => ?_
      obtain ⟨locks, connection⟩ := m
      obtain ⟨rfl, rfl⟩ := h
      rfl
    · have none : μ s.tasks.length = .nothing := hob.resting _ le_rfl
      rw [← none, Function.update_eq_self]
      exact hJ
  | sql tables =>
    obtain ⟨μ, hob, hJ⟩ := h
    cases hs
    exact ⟨μ, hob.world _, hJ.nodup, hJ.locks, hJ.connections⟩

lemma booted_inOrder (size : ℕ) (w : World) : InOrder size (booted size w) :=
  ⟨fun _ => .nothing, .nil, List.nodup_nil, by simp [booted], ∅, by simp [Held.nothing], by
    simp [booted]⟩

lemma rank_le (r : Resource) : rank r ≤ 3 := by
  cases r with
  | lock l => cases l <;> simp [rank, lockRank]
  | connection => exact le_rfl

/-- If a task is unfinished, some unfinished task does not wait. -/
theorem inOrder_moves (hsize : 2 ≤ size) (h : InOrder size s) (hi : Unfinished s i) :
    ∃ j, Unfinished s j ∧ ∀ r, ¬Waits s j r := by
  by_contra stuck
  push Not at stuck
  obtain ⟨μ, hob, acc⟩ := h
  have held : ∀ j r, Waits s j r → ∃ k, (μ k).has r := by
    intro j r hw
    cases r with
    | lock l =>
      obtain ⟨op, next, -, taken⟩ := hw
      exact acc.locks l taken
    | connection =>
      obtain ⟨op, next, -, none⟩ := hw
      obtain ⟨holders, hmem, hcard⟩ := acc.connections
      obtain ⟨k, hk⟩ := Finset.card_pos.mp (show 0 < holders.card by omega)
      exact ⟨k, (hmem k).mp hk⟩
  have busy : ∀ j r, (μ j).has r → ∃ r', Waits s j r' := by
    intro j r hr
    have nothing : μ j ≠ .nothing := by
      intro hn
      rw [hn] at hr
      cases r <;> simp [Held.has, Held.nothing] at hr
    cases ht : s.tasks[j]? with
    | none => exact absurd (hob.resting j (List.getElem?_eq_none_iff.mp ht)) nothing
    | some task =>
      obtain ⟨op, q⟩ := task
      cases q with
      | done a => exact absurd (hob.ended ht) nothing
      | call e next => exact stuck j ⟨op, e, next, ht⟩
  have up : ∀ j r r', (μ j).has r → Waits s j r' → rank r < rank r' := by
    intro j r r' hr hw
    cases r' with
    | lock l =>
      obtain ⟨op, next, ht, -⟩ := hw
      obtain ⟨unconnected, below⟩ := hob.allowed ht
      cases r with
      | lock k => exact below k hr
      | connection => exact absurd (hr.symm.trans unconnected) (by simp)
    | connection =>
      obtain ⟨op, next, ht, -⟩ := hw
      have unconnected : (μ j).connection = false := hob.allowed ht
      cases r with
      | lock k => cases k <;> simp [rank, lockRank]
      | connection => exact absurd (hr.symm.trans unconnected) (by simp)
  obtain ⟨r, hr⟩ := stuck i hi
  exact no_wait rank rank_le held busy up i r hr

/-- No deadlock: in every state that any tasks reach, with any outcomes of their calls, an unfinished
task is left that waits for no lock and no connection. -/
theorem no_deadlock (hsize : 2 ≤ size) {w : World}
    (h : Reaches (serve cfg) (fun _ _ => True) (booted size w) s) (hi : Unfinished s i) :
    ∃ j, Unfinished s j ∧ ∀ r, ¬Waits s j r :=
  inOrder_moves hsize
    (h.invariant (booted_inOrder size w) fun _ _ _ hu _ hn => serve_inOrder hu hn) hi

/-- A create that has its peer lock, the port lock and the last connection; another create waits for the
first lock, the reconciler for the connection. -/
theorem no_deadlock_sample : ∃ s, Reaches (serve sampleConfig) (fun _ _ => True)
    (booted 2 (emptyWorld [] [] ⟨none, ∅⟩)) s ∧ Waits s 1 (.lock (.peer 4242421111 "a")) ∧
    Waits s 2 .connection ∧ ∃ j, Unfinished s j ∧ ∀ r, ¬Waits s j r := by
  let create : Op := .createPeer 4242421111 "a" ⟨"key"⟩ none none none
  have run : ∃ s, steps (serve sampleConfig) ([.start create, .start create, .start .syncNftPorts] ++
      List.replicate 6 (.task 0 .ok)) (booted 2 (emptyWorld [] [] ⟨none, ∅⟩)) = some s ∧
      Waits s 1 (.lock (.peer 4242421111 "a")) ∧ Waits s 2 .connection :=
    ⟨_, rfl, ⟨_, _, rfl, by decide⟩, _, _, rfl, rfl⟩
  obtain ⟨s, hs, waits₁, waits₂⟩ := run
  have reached := steps_reaches (P := fun _ _ => True) (Schedule.of_forall fun _ _ _ => trivial) hs
  have unfinished : Unfinished s 1 := by
    obtain ⟨op, next, ht, -⟩ := waits₁
    exact ⟨op, _, next, ht⟩
  exact ⟨s, reached, waits₁, waits₂, no_deadlock le_rfl reached unfinished⟩

end Service

end Autopeer.LockOrder
