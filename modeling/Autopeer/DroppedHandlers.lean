import Autopeer.LockOrder
import Autopeer.ProgramUnwinding
import Autopeer.ServiceClearance

/-! Requests whose client goes away. Such a handler is dropped where it waits for the database, the
resolver, the kernel or the registry: it makes no further call, and gives back its locks and its
permit. Runs with such drops reach no other states than runs without, so what holds of those holds of
these. A drop inside a rewrite of BIRD's files, or in the queue for a lock, is left out. -/
namespace Autopeer.DroppedHandlers
open PeerData ProgramTree ProgramPool TransitionRuns ProgramEmbedding ProgramUnwinding
open ManagerWorld ManagerPrograms ManagerSystem ManagerRules
open ChallengeSystem HttpHandlers ServiceSystem
open LockOrder (ordered balanced_createPeer balanced_updatePeer balanced_deletePeer)
open ServiceClearance (Permit permitting permitNext permitting_issueChallenge
  permitting_authorizeRequest)
open SignedMessage (Mutation)

variable {cfg : Config} {α β : Type}

section Dropping

/-- What a handler holds for a time. -/
inductive Guard
  | lock (l : Lock)
  | permit

def release : Guard → State → State
  | .lock l, w => { w with manager := { w.manager with locks := w.manager.locks.erase l } }
  | .permit, w => { w with store := { w.store with permits := w.store.permits + 1 } }

/-- A handler that is dropped makes none of its calls, as if they failed, and releases its guards. -/
def exit (error : PeerError) : (e : ServiceCall) → Exit Guard (ServiceAnswer e)
  | .inl (.io _) => .fails (.error error)
  | .inl (.resolveEndpoint _) => .fails (.error error)
  | .inl (.unlock l) => .releases (.lock l) ()
  | .inl (.lock _) => .stays
  | .inr .acquire => .fails (.error error)
  | .inr (.deleteExpired _) => .fails (.error error)
  | .inr (.insertNonce _) => .fails (.error error)
  | .inr (.deleteNonce ..) => .fails (.error error)
  | .inr (.checkRegistry ..) => .fails (.error error)
  | .inr .release => .releases .permit ()
  | .inr .unixTimestamp | .inr .generatePreshared | .inr .tryAcquire => .stays

/-- A wait of a handler for one answer from outside. -/
def outside : ServiceCall → Bool
  | .inl (.io (.syncBirdFiles ..)) | .inl (.lock _) | .inl (.unlock _) => false
  | .inl (.io _) | .inl (.resolveEndpoint _) => true
  | .inr .acquire | .inr (.deleteExpired _) | .inr (.insertNonce _) | .inr (.deleteNonce ..)
  | .inr (.checkRegistry ..) => true
  | .inr .unixTimestamp | .inr .generatePreshared | .inr .tryAcquire | .inr .release => false

/-- The answer is an error. -/
def failed : (e : ServiceCall) → ServiceAnswer e → Bool
  | .inl c, r => OperationEffects.refused c r
  | .inr .acquire, r => !r.isOk
  | .inr (.deleteExpired _), r => !r.isOk
  | .inr (.insertNonce _), r => !r.isOk
  | .inr (.deleteNonce ..), r => !r.isOk
  | .inr (.checkRegistry ..), r => !r.isOk
  | .inr .unixTimestamp, _ | .inr .generatePreshared, _ | .inr .tryAcquire, _ | .inr .release, _ => false

/-- Task `i` is the handler of a request, and waits for an answer from outside. -/
def awaits (s : Service) (i : ℕ) : Bool :=
  match s.tasks[i]? with
  | some (.request _, .call e _) => outside e
  | _ => false

inductive Event
  | step (l : ServiceSystem.Label)
  /-- A handler is dropped at its call, which has had the effect of `outcome`. -/
  | drop (index : ℕ) (outcome : Outcome ⊕ ChallengeSystem.Event) (error : PeerError)

def stepOrDrop (v : Deployment) : Event → Service → Option Service
  | .step l, s => ServiceSystem.step v l s
  | .drop i outcome error, s =>
    if awaits s i then
      dropTask (exit error) (ServiceSystem.exec v.cfg) release failed i outcome s
    else none

lemma sound_exit (cfg : Config) (error : PeerError) :
    Sound (exit error) (ServiceSystem.exec cfg) release where
  fails := by
    intro e r he w
    cases e with
    | inl c =>
      refine ⟨.inl (.fail error), ?_⟩
      cases c <;> cases he <;> rfl
    | inr q =>
      refine ⟨.inr (.fails error), ?_⟩
      cases q <;> cases he <;> simp [ServiceSystem.exec, ChallengeSystem.exec, approval]
  releases := by
    intro e k r he w
    cases e with
    | inl c =>
      refine ⟨.inl .ok, ?_⟩
      cases c <;> cases he
      rfl
    | inr q =>
      refine ⟨.inr .ok, ?_⟩
      cases q <;> cases he
      simp [ServiceSystem.exec, ChallengeSystem.exec, approval, release]

/-- The service reaches no state by drops that it does not reach without. -/
theorem dropping_reaches {v : Deployment} {s t : Service} :
    Reaches (stepOrDrop v) (fun _ _ => True) s t ↔
      Reaches (ServiceSystem.step v) (fun _ _ => True) s t := by
  constructor
  · intro h
    induction h with
    | refl => exact .refl
    | tail l _ _ hs ih =>
      refine ih.trans ?_
      cases l with
      | step l => exact Reaches.refl.tail l trivial hs
      | drop i o error =>
        obtain ⟨-, hs⟩ := Option.ite_none_right_eq_some.mp hs
        exact ((sound_exit v.cfg error).drop_reaches (.task i) (fun _ _ => rfl) hs).mono
          fun _ _ _ => trivial
  · intro h
    induction h with
    | refl => exact .refl
    | tail l _ _ hs ih => exact ih.tail (.step l) trivial hs

end Dropping

section Sobriety

/-- A lock is not taken right after a failure. -/
def soberAllowed (failed : Bool) : Call → Prop
  | .lock _ => failed = false
  | _ => True

def soberNext (failed : Bool) : (e : Call) → Answer e → Bool
  | .io _, r => !r.isOk
  | .resolveEndpoint _, r => !r.isOk
  | .lock _, _ | .unlock _, _ => failed

/-- The mode is whether the last call that may fail has failed. -/
def sober : Discipline Call Answer Bool := ⟨false, soberAllowed, fun _ _ _ => True, soberNext⟩

variable {failed : Bool} {p : Peer}

/-- A sober action that ends well only after a call that worked. -/
def Sober (failed : Bool) (x : Manager α) : Prop :=
  Follows sober x.run failed (OnOk fun m _ => m = false)

/-- A sober action that may end well after a failure, as a compensation does. -/
def Undoes (failed : Bool) (x : Manager α) : Prop :=
  Follows sober x.run failed fun _ _ => True

lemma sober_return {a : α} : Sober false (return a : Manager α) := rfl

lemma sober_throw {e : PeerError} : Sober failed (throw e : Manager α) := trivial

lemma sober_io {c : Io} : Sober failed (io c) :=
  follows_io trivial fun r _ => by cases r <;> trivial

lemma Sober.bind {x : Manager α} {f : α → Manager β} (hx : Sober failed x)
    (hf : ∀ a, Sober false (f a)) : Sober failed (x >>= f) :=
  Follows.andThen hx fun m a (h : m = false) => by
    subst h
    exact hf a

lemma Sober.withLock {l : Lock} {body : Manager α} (hb : Sober false body) :
    Sober false (withLock l body) :=
  follows_withLock rfl fun _ => hb.mono fun _ _ h => ⟨trivial, fun _ => h⟩

lemma Sober.undoes {x : Manager α} (hx : Sober failed x) : Undoes failed x :=
  hx.mono fun _ _ _ => trivial

lemma Undoes.attempt_bind {x : Manager α} {f : Except PeerError α → Manager β} (hx : Undoes failed x)
    (hf : ∀ r failed, Undoes failed (f r)) : Undoes failed (attempt x >>= f) :=
  follows_attempt_bind (hx.mono fun m r _ => hf r m)

/-- After a compensation the error is thrown. -/
lemma Undoes.throws {x : Manager α} {e : PeerError} (hx : Undoes failed x) :
    Sober failed (x >>= fun _ => throw e : Manager β) :=
  Follows.run_bind hx (fun _ _ _ => trivial) fun _ _ _ => trivial

/-- An attempt that fails is followed by what copes with its failure. -/
lemma Sober.attempt_bind {x : Manager α} {f : Except PeerError α → Manager β} (hx : Sober failed x)
    (ok : ∀ a, Sober false (f (.ok a))) (bad : ∀ e failed, Sober failed (f (.error e))) :
    Sober failed (attempt x >>= f) := by
  refine follows_attempt_bind (hx.mono fun m r h => ?_)
  cases r with
  | ok a =>
    obtain rfl : m = false := h
    exact ok a
  | error e => exact bad e m

lemma sober_syncNftPorts : Sober failed syncNftPorts :=
  sober_io.bind fun _ => .withLock sober_io

lemma sober_syncBirdConfigs : Sober failed syncBirdConfigs :=
  sober_io.bind fun _ => .withLock sober_io

lemma sober_resolveOptional (text : Option String) : Sober false (resolveOptional text) := by
  cases text with
  | none => exact sober_return
  | some text =>
    have resolve : Sober false (resolveEndpoint text) := ⟨trivial, fun r _ => by cases r <;> trivial⟩
    exact resolve.bind fun _ => sober_return

lemma sober_applyPeer : Sober failed (applyPeer p) := by
  have wireguard : Sober failed (applyWireguard p) :=
    sober_io.bind fun _ => (sober_resolveOptional _).bind fun _ => sober_io.bind fun _ => sober_io
  exact wireguard.bind fun _ => sober_syncBirdConfigs

lemma sober_removeExternalState : Sober failed (removeExternalState p) :=
  sober_syncBirdConfigs.bind fun _ => sober_io

lemma undoes_compensateFailedCreate : Undoes failed (compensateFailedCreate p) := by
  refine sober_io.undoes.attempt_bind fun _ _ => ?_
  refine sober_removeExternalState.undoes.attempt_bind fun r _ => ?_
  cases r with
  | ok _ =>
    refine sober_io.undoes.attempt_bind fun _ _ => ?_
    exact sober_syncNftPorts.undoes.attempt_bind fun _ _ => trivial
  | error _ => exact sober_syncNftPorts.undoes.attempt_bind fun _ _ => trivial

lemma undoes_compensateFailedUpdate : Undoes failed (compensateFailedUpdate p) := by
  refine sober_io.undoes.attempt_bind fun r _ => ?_
  cases r with
  | error _ => trivial
  | ok _ =>
    refine sober_applyPeer.undoes.attempt_bind fun r _ => ?_
    cases r with
    | error _ => trivial
    | ok _ => exact sober_io.undoes.attempt_bind fun _ _ => trivial

lemma sober_provision (asn : UInt32) : Sober failed (provision asn p) := by
  have undo : ∀ {failed} error, Sober failed
      (compensateFailedCreate p >>= fun _ => throw error : Manager Peer) := fun _ =>
    undoes_compensateFailedCreate.throws
  refine sober_applyPeer.attempt_bind (fun _ => ?_) fun error _ => undo error
  refine sober_syncNftPorts.attempt_bind (fun _ => ?_) fun error _ => undo error
  refine sober_io.attempt_bind (fun stored => ?_) fun error _ => undo error
  cases stored with
  | true => exact sober_return
  | false => exact undo _

lemma sober_reprovision (asn : UInt32) (peerName : String) {q : Peer} :
    Sober failed (reprovision asn peerName p q) := by
  refine sober_applyPeer.attempt_bind (fun _ => ?_) fun _ _ => undoes_compensateFailedUpdate.throws
  refine sober_io.bind fun stored => ?_
  cases stored with
  | true => exact sober_return
  | false => exact sober_throw

lemma sober_dismantle (asn : UInt32) (peerName : String) : Sober failed (dismantle asn peerName p) := by
  have throws : ∀ {failed} {γ : Type} {x : Manager γ} {error}, Sober failed x → Sober failed
      (attempt x >>= fun _ => throw error : Manager Peer) := fun hx =>
    hx.attempt_bind (fun _ => sober_throw) fun _ _ => sober_throw
  refine sober_syncNftPorts.attempt_bind (fun _ => ?_) fun _ _ => throws sober_io
  refine sober_removeExternalState.attempt_bind (fun _ => ?_) fun _ _ => ?_
  · refine sober_io.bind fun deleted => ?_
    cases deleted with
    | true => exact sober_return
    | false => exact sober_throw
  · refine sober_io.attempt_bind (fun _ => ?_) fun _ _ => sober_throw
    refine sober_applyPeer.attempt_bind (fun _ => ?_) fun _ _ => sober_throw
    exact throws sober_syncNftPorts

lemma sober_reserveFrom {asn : UInt32} {peerName : String} {test : Bool} {peerAt : UInt16 → Peer}
    {increments : List ℕ} : Sober failed (reserveFrom asn peerName test peerAt increments) := by
  refine (follows_reserveFrom (I := fun _ => True) (B := fun m _ => m = false) trivial
    (fun _ _ _ _ => ⟨trivial, fun _ _ => trivial⟩)
    fun port m _ => ⟨trivial, fun r _ => ⟨fun hr => ?_, fun _ => trivial⟩⟩).mono fun m r h => ?_
  · subst hr
    rfl
  · cases r with
    | ok peer => exact h.1 peer rfl
    | error e => trivial

lemma sober_reservePeer {asn : UInt32} {peerName : String} {pubkey : WgPubKey}
    {endpoint : Option String} {linkLocal : Option (Ipv6.Ipv6Addr × Ipv6.Ipv6Addr)} {mtu : UInt16} :
    Sober failed (reservePeer cfg asn peerName pubkey endpoint linkLocal mtu) := by
  refine Sober.bind (sober_io.bind fun peerId => ?_) fun peerId => ?_
  · split
    · exact sober_return
    · exact sober_throw
  · generalize List.range 10000 = increments
    exact sober_reserveFrom

lemma sober_orNotFound {asn : UInt32} {peerName : String} (row : Option Peer) :
    Sober false (orNotFound asn peerName row) := by
  cases row with
  | none => exact sober_throw
  | some peer => exact sober_return

theorem sober_createPeer {asn : UInt32} {peerName : String} {pubkey : WgPubKey}
    {endpoint : Option String} {linkLocal : Option (Ipv6.Ipv6Addr × Ipv6.Ipv6Addr)}
    {mtu : Option UInt16} :
    Sober false (ManagerPrograms.createPeer cfg asn peerName pubkey endpoint linkLocal mtu) := by
  refine .withLock (sober_io.bind fun taken => ?_)
  cases taken with
  | true => exact sober_throw
  | false =>
    refine Sober.bind (.withLock sober_reservePeer) fun peer => ?_
    split
    · exact sober_return
    · exact sober_provision asn

theorem sober_updatePeer {asn : UInt32} {peerName : String} {pubkey : WgPubKey}
    {endpoint : Option (Option String)} {linkLocal : Option (Ipv6.Ipv6Addr × Ipv6.Ipv6Addr)}
    {mtu : Option (Option UInt16)} :
    Sober false (ManagerPrograms.updatePeer cfg asn peerName pubkey endpoint linkLocal mtu) := by
  refine .withLock (sober_io.bind fun row => (sober_orNotFound row).bind fun oldPeer => ?_)
  split
  · exact sober_throw
  · refine sober_io.bind fun stored => ?_
    cases stored with
    | true => exact sober_reprovision asn peerName
    | false => exact sober_throw

theorem sober_deletePeer {asn : UInt32} {peerName : String} :
    Sober false (ManagerPrograms.deletePeer asn peerName) := by
  refine .withLock (sober_io.bind fun row => (sober_orNotFound row).bind fun peer =>
    sober_io.bind fun marked => ?_)
  cases marked with
  | true => exact sober_dismantle asn peerName
  | false => exact sober_throw

/-- What a handler asks of the manager is sober, and takes its locks in order. -/
theorem sober_perform (mutation : Mutation) :
    Follows (sober.both ordered) (perform cfg mutation).run (false, []) fun m r =>
      OnOk (fun failed _ => failed = false) m.1 r ∧ m.2 = [] := by
  cases mutation with
  | create => exact sober_createPeer.both balanced_createPeer
  | update => exact sober_updatePeer.both balanced_updatePeer
  | delete => exact sober_deletePeer.both balanced_deletePeer

end Sobriety

section Authorization

def queryNext (failed : Bool) : (q : Query) → Result q → Bool
  | .acquire, r => !r.isOk
  | .deleteExpired _, r => !r.isOk
  | .insertNonce _, r => !r.isOk
  | .deleteNonce .., r => !r.isOk
  | .checkRegistry .., r => !r.isOk
  | .unixTimestamp, _ | .generatePreshared, _ | .tryAcquire, _ | .release, _ => failed

/-- After a failure an authorization gives its permit back at most. -/
def soberQueries : Discipline Query Result Bool :=
  ⟨false, fun failed q => failed = true → q = .release, fun _ _ _ => True, queryNext⟩

def SoberQueries (x : Authorizer α) : Prop :=
  Follows soberQueries x.run false (OnOk fun m _ => m = false)

lemma SoberQueries.bind {x : Authorizer α} {f : α → Authorizer β} (hx : SoberQueries x)
    (hf : ∀ a, SoberQueries (f a)) : SoberQueries (x >>= f) :=
  Follows.andThen hx fun m a (h : m = false) => by
    subst h
    exact hf a

lemma soberQueries_ask {q : Query} (h : ∀ r, queryNext false q r = false) : SoberQueries (ask q) :=
  ⟨fun hf => (by cases hf), fun r _ => h r⟩

lemma soberQueries_acquire : SoberQueries acquire :=
  ⟨fun hf => (by cases hf), fun r _ => by cases r <;> trivial⟩

lemma soberQueries_insertNonce {asn : UInt32} {nonce : String} {expiresAt : Int64} :
    SoberQueries (insertNonce asn nonce expiresAt) := by
  refine soberQueries_acquire.bind fun _ => (soberQueries_ask fun _ => rfl).bind fun now => ?_
  refine SoberQueries.bind ⟨fun hf => (by cases hf), fun r _ => ?_⟩ fun _ =>
    ⟨fun hf => (by cases hf), fun r _ => ?_⟩
  · cases r <;> trivial
  · cases r <;> trivial

lemma soberQueries_tryNonces {asn : UInt32} {expiresAt : Int64} (n : ℕ) :
    SoberQueries (tryNonces asn expiresAt n) := by
  induction n with
  | zero => trivial
  | succ n ih =>
    refine (soberQueries_ask fun _ => rfl).bind fun nonce => soberQueries_insertNonce.bind fun inserted => ?_
    cases inserted with
    | true => rfl
    | false => exact ih

lemma soberQueries_issueChallenge (asn : UInt32) : SoberQueries (issueChallenge asn) :=
  (soberQueries_ask fun _ => rfl).bind fun _ => soberQueries_tryNonces 4

lemma SoberQueries.withPermit {body : Authorizer Unit} (hb : SoberQueries body) :
    SoberQueries (withPermit body) := by
  refine ⟨fun hf => (by cases hf), fun permit _ => ?_⟩
  cases permit with
  | false => trivial
  | true => exact follows_bind.mpr (hb.mono fun m r h => ⟨fun _ => rfl, fun _ _ => h⟩)

lemma soberQueries_authorizeRequest {verify : String → String → String → Except PeerError Unit}
    {asn : UInt32} {publicKey signature nonce message : String} {expiresAt : Int64} :
    SoberQueries (authorizeRequest verify asn publicKey signature nonce expiresAt message) := by
  refine (soberQueries_ask fun _ => rfl).bind fun now => ?_
  split
  · trivial
  split
  · trivial
  refine .withPermit (SoberQueries.bind ?_ fun consumed => ?_)
  · refine soberQueries_acquire.bind fun _ => (soberQueries_ask fun _ => rfl).bind fun now =>
      ⟨fun hf => (by cases hf), fun r _ => ?_⟩
    cases r <;> trivial
  · cases consumed with
    | false => trivial
    | true =>
      refine SoberQueries.bind ⟨fun hf => (by cases hf), fun r _ => ?_⟩ fun approved => ?_
      · cases r <;> trivial
      · cases approved with
        | true => rfl
        | false => trivial

end Authorization

section Handlers

/-- Whether the last call of a handler that may fail has failed, and what the handler holds. -/
structure Grip where
  failed : Bool
  locks : List Lock
  permit : Permit

def Grip.empty : Grip := ⟨false, [], .none⟩

def Grip.guards (m : Grip) : List Guard :=
  m.locks.map .lock ++ if m.permit.held then [.permit] else []

lemma Grip.guards_nil {m : Grip} (locks : m.locks = []) (permit : m.permit.held = false) :
    m.guards = [] := by simp [Grip.guards, locks, permit]

def gripAllowed (m : Grip) : ServiceCall → Prop
  | .inl c => (sober.both ordered).allowed (m.failed, m.locks) c
  | .inr q => (soberQueries.both permitting).allowed (m.failed, m.permit) q

def gripNext (m : Grip) : (e : ServiceCall) → ServiceAnswer e → Grip
  | .inl c, r => { m with failed := sober.next m.failed c r, locks := ordered.next m.locks c r }
  | .inr q, r =>
    { m with failed := soberQueries.next m.failed q r, permit := permitting.next m.permit q r }

def gripping : Discipline ServiceCall ServiceAnswer Grip :=
  ⟨.empty, gripAllowed, fun _ _ _ => True, gripNext⟩

lemma restricts_manager (permit : Permit) :
    Restricts (sober.both ordered) gripping managerCalls (fun m => (m.failed, m.locks))
      fun m => m.permit = permit where
  allowed := fun _ _ _ h => h
  answer := fun _ _ _ _ _ => ⟨trivial, trivial⟩
  next := fun _ _ _ _ => rfl
  kept := fun _ _ _ h => h

lemma restricts_authorizer :
    Restricts (soberQueries.both permitting) gripping authorizerCalls (fun m => (m.failed, m.permit))
      fun m => m.locks = [] where
  allowed := fun _ _ _ h => h
  answer := fun _ _ _ _ _ => ⟨trivial, trivial⟩
  next := fun _ _ _ _ => rfl
  kept := fun _ _ _ h => h

variable {v : Deployment}

lemma gripping_mutate {parsed : Except PeerError Mutation} {challenge : Challenge} :
    Follows gripping (((mutate v.verify v.site v.cfg parsed challenge).run >>= fun r =>
      .done (respond r)) >>= fun reply => .done (.inl reply : HttpReply ⊕ Reply)) .empty
      fun m _ => m.guards = [] := by
  cases parsed with
  | error e => rfl
  | ok mutation =>
    rw [mutate, settled_bind_run, following_ok, authorize, embedded_bind_run, bind_assoc, bind_assoc,
      follows_bind]
    refine Follows.mono (Follows.embed restricts_authorizer (m := Grip.empty) rfl
      (soberQueries_authorizeRequest.both permitting_authorizeRequest)) fun m r hend => ?_
    obtain ⟨hlocks, hsober, hheld, -⟩ := hend
    cases r with
    | error e => exact Grip.guards_nil hlocks hheld
    | ok _ =>
      rw [following_ok, embedded_bind_run, bind_assoc, follows_bind]
      have start : (m.failed, m.locks) = (false, []) := Prod.ext hsober hlocks
      refine Follows.mono (Follows.embed (restricts_manager m.permit) (m := m) rfl
        (start ▸ sober_perform mutation)) fun m' result hm' => ?_
      obtain ⟨hpermit, -, hlocks'⟩ := hm'
      have free : m'.guards = [] := Grip.guards_nil hlocks' (hpermit ▸ hheld)
      cases result <;> exact free

/-- A request holds nothing at its end. -/
theorem gripping_work (request : HttpRequest) :
    Follows gripping (work v (.request request)) .empty fun m _ => m.guards = [] := by
  cases request with
  | createChallenge asn =>
    rw [work, handle, HttpHandlers.createChallenge, embedded_bind_run, bind_assoc, bind_assoc,
      follows_bind]
    refine Follows.mono (Follows.embed restricts_authorizer (m := Grip.empty) rfl
      ((soberQueries_issueChallenge asn).both (permitting_issueChallenge asn _))) fun m r hm => ?_
    obtain ⟨hlocks, -, hpermit⟩ := hm
    have free : m.guards = [] := Grip.guards_nil hlocks (congrArg Permit.held hpermit)
    cases r <;> exact free
  | createPeer payload => exact gripping_mutate
  | updatePeer payload => exact gripping_mutate
  | deletePeer payload => exact gripping_mutate

/-- On the way out of a handler nothing is waited for. -/
lemma gripping_leadsOut (error : PeerError) :
    LeadsOut gripping (exit error) (fun m => m.failed = true) Grip.guards where
  made := by
    intro m e hm ha he
    cases e with
    | inl c =>
      cases c with
      | lock l => exact Bool.false_ne_true (ha.1.symm.trans hm)
      | _ => cases he
    | inr q =>
      obtain rfl := ha.1 hm
      cases he
  fails := by
    intro m e r hm ha he
    cases e with
    | inl c => cases c <;> cases he <;> exact ⟨trivial, rfl, rfl⟩
    | inr q =>
      obtain rfl := ha.1 hm
      cases he
  releases := by
    intro m e k r hm ha he
    cases e with
    | inl c =>
      cases c with
      | unlock l =>
        cases he
        have back := ((List.perm_cons_erase ha.2).map Guard.lock).symm
        exact ⟨trivial, hm, back.append_right _⟩
      | _ => cases he
    | inr q =>
      obtain rfl := ha.1 hm
      cases he
      refine ⟨trivial, hm, ?_⟩
      have held : m.permit.held = true := ha.2
      simpa [Grip.guards, gripping, gripNext, permitting, permitNext, held] using
        (List.perm_append_singleton Guard.permit (m.locks.map .lock)).symm

/-- Each request is on a way that the discipline allows, and holds nothing at its end. -/
def Gripped (s : Service) : Prop :=
  ∀ (k : ℕ) request p, s.tasks[k]? = some (.request request, p) →
    ∃ m, Follows gripping p m fun m' _ => m'.guards = []

lemma Gripped.spawn {s : Service} (h : Gripped s) (w : Work) : Gripped (s.spawn w (work v w)) := by
  intro k request p hk
  rw [Pool.spawn, List.getElem?_append] at hk
  split at hk
  · exact h k request p hk
  · rw [List.getElem?_singleton] at hk
    split at hk
    · cases hk
      exact ⟨_, gripping_work request⟩
    · cases hk

theorem gripped_step {s s' : Service} {l : ServiceSystem.Label} (h : Gripped s)
    (hs : ServiceSystem.step v l s = some s') : Gripped s' := by
  cases l with
  | task i o =>
    obtain ⟨t, e, next, r, u, ht, -, rfl⟩ := Pool.stepTask_cases hs
    intro k request p hk
    by_cases hik : i = k
    · subst hik
      rw [List.getElem?_set_self (List.getElem?_eq_some_iff.mp ht).1] at hk
      cases hk
      obtain ⟨m, hm⟩ := h i _ _ ht
      exact ⟨_, hm.2 r trivial⟩
    · rw [List.getElem?_set_ne hik] at hk
      exact h k request p hk
  | request request =>
    obtain ⟨-, hs⟩ := Option.ite_none_right_eq_some.mp hs
    cases hs
    exact h.spawn _
  | notify =>
    obtain ⟨-, hs⟩ := Option.ite_none_right_eq_some.mp hs
    cases hs
    exact h.spawn _
  | tick =>
    obtain ⟨-, hs⟩ := Option.ite_none_right_eq_some.mp hs
    cases hs
    exact h.spawn _
  | sqlStatus peerId status =>
    cases hs
    exact h
  | sqlDelete peerId =>
    cases hs
    exact h
  | restart =>
    cases hs
    intro k request p hk
    rw [List.getElem?_singleton] at hk
    split at hk <;> cases hk

/-- An error from outside is the last that the handler knows of, and takes nothing from it. -/
lemma gripNext_failed {m : Grip} {e : ServiceCall} {r : ServiceAnswer e} (ho : outside e = true)
    (hr : failed e r = true) :
    (gripNext m e r).failed = true ∧ (gripNext m e r).guards = m.guards := by
  cases e with
  | inl c =>
    cases c with
    | io c => exact ⟨hr, rfl⟩
    | resolveEndpoint text => exact ⟨hr, rfl⟩
    | _ => cases ho
  | inr q =>
    cases q with
    | checkRegistry asn publicKey =>
      cases r with
      | ok approved => cases hr
      | error e => exact ⟨rfl, rfl⟩
    | _ => first | exact ⟨hr, rfl⟩ | cases ho

/-- A request that waits for an answer from outside can be dropped there, in every state that is
reached, whatever the call has done. What the drop releases is what the request holds. -/
theorem drop_possible {w : World} {s : Service} {i : ℕ} {request : HttpRequest} {e : ServiceCall}
    {next : ServiceAnswer e → Program ServiceCall ServiceAnswer (HttpReply ⊕ Reply)}
    (h : Reaches (stepOrDrop v) (fun _ _ => True) (Service.stopped v w) s)
    (ht : s.tasks[i]? = some (.request request, .call e next)) (ho : outside e = true)
    {o : Outcome ⊕ ChallengeSystem.Event} {r : ServiceAnswer e} {u : State}
    (hx : ServiceSystem.exec v.cfg o e s.world = some (r, u)) (hr : failed e r = true)
    (error : PeerError) :
    ∃ given a m, Follows gripping (.call e next) m (fun m' _ => m'.guards = []) ∧
      given.Perm m.guards ∧ stepOrDrop v (.drop i o error) s =
        some ⟨releaseAll release given u, s.tasks.set i (.request request, .done a)⟩ := by
  have gripped : Gripped s :=
    (dropping_reaches.mp h).invariant (by simp [Gripped, Service.stopped]) fun _ _ _ hJ _ hs =>
      gripped_step hJ hs
  obtain ⟨m, hm⟩ := gripped i request _ ht
  obtain ⟨lost, same⟩ := gripNext_failed (m := m) ho hr
  obtain ⟨given, a, hu, back⟩ := (gripping_leadsOut error).unwound lost (hm.2 r trivial)
  refine ⟨given, a, m, hm, same ▸ back, ?_⟩
  simp [stepOrDrop, awaits, dropTask, ht, ho, hx, hr, hu]

end Handlers

end Autopeer.DroppedHandlers
