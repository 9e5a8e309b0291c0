import Autopeer.HttpHandlers
import Autopeer.TableInvariant

/-! The process as a whole: recovery at startup, then HTTP requests and the two loops, each handler
with the queries of its authorization and the calls of the manager it makes. What it does to the
tables, the links, the firewall and BIRD is what the manager does alone. Handlers that are dropped
while they wait come in `DroppedHandlers`. -/
namespace Autopeer.ServiceSystem
open Ipv6 PeerData RequestParsing SignedMessage
open ProgramTree ProgramPool TransitionRuns ProgramEmbedding
open ManagerWorld ManagerPrograms ManagerSystem TableInvariant HttpHandlers
open ChallengeSystem (Store Query Result Event)

/-- What a deployment fixes, and the parsers and the signature check of the libraries. -/
structure Deployment where
  cfg : Config
  site : Site
  verify : String → String → String → Except PeerError Unit
  parseUrl : String → Option Url
  parseIpv6 : String → Option Ipv6Addr
  /-- `REGISTRY_MAX_CONCURRENT`. -/
  maxConcurrent : ℕ

/-- What the registry approves of: that the key is one of the AS. -/
structure Approval where
  asn : UInt32
  publicKey : String
  deriving DecidableEq

structure State where
  manager : World
  store : Store
  /-- History of the approvals of the registry. No call reads it. -/
  approved : List Approval

/-- What the registry approves of with an answer. -/
def approval : (q : Query) → Result q → List Approval
  | .checkRegistry asn publicKey, .ok true => [⟨asn, publicKey⟩]
  | _, _ => []

def exec (cfg : Config) : Outcome ⊕ Event → (e : ServiceCall) → State →
    Option (ServiceAnswer e × State)
  | .inl o, .inl c, w =>
    (ManagerWorld.exec cfg o c w.manager).map fun a => (a.1, { w with manager := a.2 })
  | .inr o, .inr q, w =>
    (ChallengeSystem.exec o q w.store).map fun a =>
      (a.1, { w with store := a.2, approved := w.approved ++ approval q a.1 })
  | _, _, _ => none

inductive Work
  | request (request : HttpRequest)
  | syncPendingPeerChanges
  | syncNftPorts
  | recover
  deriving DecidableEq

variable (v : Deployment)

def work : Work → Program ServiceCall ServiceAnswer (HttpReply ⊕ Reply)
  | .request request =>
    handle v.verify v.parseUrl v.parseIpv6 v.site v.cfg request >>= fun reply => .done (.inl reply)
  | .syncPendingPeerChanges =>
    embed managerCalls (program v.cfg .syncPendingPeerChanges) >>= fun r => .done (.inr r)
  | .syncNftPorts => embed managerCalls (program v.cfg .syncNftPorts) >>= fun r => .done (.inr r)
  | .recover => embed managerCalls (program v.cfg .recover) >>= fun r => .done (.inr r)

abbrev Service := Pool State Work ServiceCall ServiceAnswer (HttpReply ⊕ Reply)

/-- Recovery has ended well. -/
def Service.serving (s : Service) : Bool :=
  match s.tasks with
  | (.recover, .done (.inr (.ok _))) :: _ => true
  | _ => false

/-- No pass of this loop is in flight. -/
def Service.waits (s : Service) (loop : Work) : Bool :=
  s.tasks.all fun task =>
    match task.2 with
    | .done _ => true
    | .call .. => task.1 ≠ loop

inductive Label
  /-- A task makes its next call. -/
  | task (index : ℕ) (outcome : Outcome ⊕ Event)
  | request (request : HttpRequest)
  /-- The listener is notified, or its retry is due. -/
  | notify
  /-- The interval of the reconciler has passed. -/
  | tick
  | sqlStatus (peerId : UInt32) (status : PeerStatus)
  | sqlDelete (peerId : UInt32)
  /-- The process ends and starts again: locks and permits are those of a new process. -/
  | restart

def step : Label → Service → Option Service
  | .task index outcome, s => s.stepTask (exec v.cfg) index outcome
  | .request request, s =>
    if s.serving then some (s.spawn (.request request) (work v (.request request))) else none
  | .notify, s =>
    if s.serving && s.waits .syncPendingPeerChanges then
      some (s.spawn .syncPendingPeerChanges (work v .syncPendingPeerChanges))
    else none
  | .tick, s =>
    if s.serving && s.waits .syncNftPorts then some (s.spawn .syncNftPorts (work v .syncNftPorts))
    else none
  | .sqlStatus peerId status, s =>
    some { s with
      world.manager := s.world.manager.withTables
        (s.world.manager.updateRow peerId fun row => { row with status }).2 }
  | .sqlDelete peerId, s =>
    some { s with
      world.manager := s.world.manager.withTables (s.world.manager.deleteRow peerId).2 }
  | .restart, s =>
    some { world := { s.world with
             manager := { s.world.manager with locks := [] }
             store := { s.world.store with permits := v.maxConcurrent } }
           tasks := [(.recover, work v .recover)] }

/-- How often the process is started in these steps. -/
def restarts (ls : List Label) : ℕ :=
  ls.countP fun l =>
    match l with
    | .restart => true
    | _ => false

/-- The process is down; no challenge was issued yet. -/
def Service.stopped (w : World) : Service :=
  ⟨⟨w, { nonces := [], permits := v.maxConcurrent, issued := [], consumed := [], clock := 0 }, []⟩, []⟩

section Handing

/-- The fields of a request pass the parsers and ask for this mutation. -/
def Parses : HttpRequest → Mutation → Prop
  | .createChallenge _, _ => False
  | .createPeer payload, mutation => payload.parse v.parseUrl v.parseIpv6 = .ok mutation
  | .updatePeer payload, mutation => payload.parse v.parseUrl v.parseIpv6 = .ok mutation
  | .deletePeer payload, mutation => payload.parse = .ok mutation

def opOf : Mutation → Op
  | .create asn peerName pubkey endpoint linkLocal mtu =>
    .createPeer asn peerName pubkey endpoint linkLocal mtu
  | .update asn peerName pubkey endpoint linkLocal mtu =>
    .updatePeer asn peerName pubkey endpoint linkLocal mtu
  | .delete asn peerName => .deletePeer asn peerName

/-- What the client hears of the result of the manager. -/
def answer (mutation : Mutation) : Reply → HttpReply ⊕ Reply
  | .ok (some peer) => .inl (mutationReply v.site v.cfg mutation peer)
  | .error error => .inl (intoResponse error)
  | .ok none => .inr (.ok none)

lemma Parses.unique {request : HttpRequest} {mutation mutation' : Mutation}
    (h : Parses v request mutation) (h' : Parses v request mutation') : mutation = mutation' := by
  cases request <;> first | exact h.elim | exact Except.ok.inj (h.symm.trans h')

/-- What a task asks of the manager, and what becomes of the result. -/
def Asks : Work → Op → (Reply → HttpReply ⊕ Reply) → Prop
  | .request request, op, f =>
    ∃ mutation, Parses v request mutation ∧ op = opOf mutation ∧
      f = answer v mutation
  | .syncPendingPeerChanges, op, f => op = .syncPendingPeerChanges ∧ f = .inr
  | .syncNftPorts, op, f => op = .syncNftPorts ∧ f = .inr
  | .recover, op, f => op = .recover ∧ f = .inr

def Starts (w : Work) (op : Op) (q : Program Call Answer Reply) (f : Reply → HttpReply ⊕ Reply) :
    Prop := Asks v w op f ∧ q = program v.cfg op

lemma perform_program (mutation : Mutation) :
    program v.cfg (opOf mutation) =
      (perform v.cfg mutation).run >>= fun result => .done (result.map some) := by
  cases mutation <;> rfl

lemma authorizer_outside {α : Type} (p : Program Query Result α) :
    Calls (fun e' => ∀ c, managerCalls.call c ≠ e') (embed authorizerCalls p) := by
  refine Calls.embed ?_
  induction p with
  | done a => trivial
  | call e next ih => exact ⟨fun _ h => (by cases h), ih⟩

/-- The reply is none with a peer. -/
def WithoutPeer (reply : HttpReply ⊕ Reply) : Prop :=
  ∀ status response, reply ≠ .inl ⟨status, .peer response⟩

lemma intoResponse_error (e : PeerError) (status : ℕ) (response : PeerResponse) :
    intoResponse e ≠ ⟨status, .peer response⟩ := by
  cases e <;> simp [intoResponse]

lemma withoutPeer_error (e : PeerError) : WithoutPeer (.inl (intoResponse e)) :=
  fun status response h => intoResponse_error e status response (Sum.inl.inj h)

variable {v}

/-- A handler authorizes its request before it turns to the manager. -/
lemma before_mutate {starts : Program Call Answer Reply → (Reply → HttpReply ⊕ Reply) → Prop}
    {parsed : Except PeerError Mutation} {challenge : Challenge}
    (h : ∀ mutation, parsed = .ok mutation → starts (program v.cfg (opOf mutation)) (answer v mutation)) :
    Before managerCalls starts WithoutPeer
      (((mutate v.verify v.site v.cfg parsed challenge).run >>= fun r => .done (respond r)) >>=
        fun reply => .done (.inl reply)) := by
  cases parsed with
  | error e => exact .done _ (withoutPeer_error e)
  | ok mutation =>
    rw [mutate, settled_bind_run, following_ok, authorize, embedded_bind_run, bind_assoc, bind_assoc]
    refine before_bind (authorizer_outside _) fun r => ?_
    cases r with
    | error e => exact .done _ (withoutPeer_error e)
    | ok _ =>
      refine .handed (h mutation rfl) ?_
      rw [perform_program, embed_bind, following_ok, embedded_bind_run, bind_assoc, bind_assoc]
      congr 1
      funext result
      cases result <;> rfl

/-- What a parsed request asks of the manager. -/
lemma parses_asks (request : HttpRequest) {mutation : Mutation} (h : Parses v request mutation) :
    ∃ op, Starts v (.request request) op (program v.cfg (opOf mutation)) (answer v mutation) :=
  ⟨_, ⟨mutation, h, rfl, rfl⟩, rfl⟩

lemma before_work (w : Work) :
    Before managerCalls (fun q f => ∃ op, Starts v w op q f) WithoutPeer (work v w) := by
  cases w with
  | request request =>
    cases request with
    | createChallenge asn =>
      rw [work, handle, createChallenge, embedded_bind_run, bind_assoc, bind_assoc]
      refine before_bind (authorizer_outside _) fun r => ?_
      cases r with
      | error e => exact .done _ (withoutPeer_error e)
      | ok challenge => exact .done _ fun _ _ h => by cases h
    | createPeer payload => exact before_mutate fun _ => parses_asks (.createPeer payload)
    | updatePeer payload => exact before_mutate fun _ => parses_asks (.updatePeer payload)
    | deletePeer payload => exact before_mutate fun _ => parses_asks (.deletePeer payload)
  | syncPendingPeerChanges => exact .handed ⟨_, ⟨rfl, rfl⟩, rfl⟩ rfl
  | syncNftPorts => exact .handed ⟨_, ⟨rfl, rfl⟩, rfl⟩ rfl
  | recover => exact .handed ⟨_, ⟨rfl, rfl⟩, rfl⟩ rfl

/-- Each task turns to the manager with what it was started for, if at all, and goes on with it. -/
def OnCourse (v : Deployment) (s : Service) : Prop :=
  ∀ (k : ℕ) w p, s.tasks[k]? = some (w, p) →
    Course managerCalls (fun q f => ∃ op, Starts v w op q f) WithoutPeer p

lemma OnCourse.spawn {s : Service} (h : OnCourse v s) (w : Work) : OnCourse v (s.spawn w (work v w)) := by
  intro k t p hk
  rw [Pool.spawn, List.getElem?_append] at hk
  split at hk
  · exact h k t p hk
  · rw [List.getElem?_singleton] at hk
    split at hk
    · cases hk
      exact .inl (before_work w)
    · cases hk

theorem onCourse_step {s s' : Service} {l : Label} (h : OnCourse v s) (hs : step v l s = some s') :
    OnCourse v s' := by
  cases l with
  | task i o =>
    obtain ⟨t, e, next, r, u, ht, -, rfl⟩ := Pool.stepTask_cases hs
    intro k w p hk
    by_cases hik : i = k
    · subst hik
      rw [List.getElem?_set_self (List.getElem?_eq_some_iff.mp ht).1] at hk
      cases hk
      exact (h i _ _ ht).next r
    · rw [List.getElem?_set_ne hik] at hk
      exact h k w p hk
  | request request =>
    obtain ⟨-, hs⟩ := Option.ite_none_right_eq_some.mp hs
    cases hs
    exact h.spawn _
  | notify =>
    obtain ⟨-, hs⟩ := Option.ite_none_right_eq_some.mp hs
    cases hs
    exact h.spawn _
  | tick =>
    obtain ⟨-, hs⟩ := Option.ite_none_right_eq_some.mp hs
    cases hs
    exact h.spawn _
  | sqlStatus peerId status =>
    cases hs
    exact h
  | sqlDelete peerId =>
    cases hs
    exact h
  | restart =>
    cases hs
    intro k w p hk
    rw [List.getElem?_singleton] at hk
    split at hk
    · cases hk
      exact .inl (before_work .recover)
    · cases hk

lemma Reaches.onCourse {s : Service} {w : World} {P : Service → Label → Prop}
    (h : Reaches (step v) P (Service.stopped v w) s) : OnCourse v s :=
  TransitionRuns.Reaches.invariant h (by simp [OnCourse, Service.stopped]) fun _ _ _ hJ _ hs =>
    onCourse_step hJ hs

end Handing

section Refinement
variable {v} {s s' : Service} {m : System} {place : ℕ → Option ℕ} {k : ℕ} {w : Work}

lemma extends_exec (cfg : Config) :
    Extends managerCalls State.manager (ManagerWorld.exec cfg) (exec cfg) where
  inside := by
    intro o' c w r u h
    cases o' with
    | inl o =>
      obtain ⟨⟨r', u'⟩, hx, he⟩ := Option.map_eq_some_iff.mp h
      cases he
      exact ⟨o, hx⟩
    | inr o => cases h
  outside := by
    intro o' e w r u none h
    cases e with
    | inl c => exact absurd rfl (none c)
    | inr q =>
      cases o' with
      | inl o => cases h
      | inr o =>
        obtain ⟨⟨r', u'⟩, hx, he⟩ := Option.map_eq_some_iff.mp h
        cases he
        rfl

/-- The manager `m` works for the service: background tasks were handed over at once, recovery is the
first task, and requests come after it. -/
structure Represents (v : Deployment) (s : Service) (m : System) (place : ℕ → Option ℕ) : Prop where
  delegates : Delegates managerCalls State.manager (Starts v) s m place
  placed : ∀ (k : ℕ) w p, s.tasks[k]? = some (w, p) → place k = none →
    ∃ request, w = Work.request request
  first : ∀ (k : ℕ) p, s.tasks[k]? = some (Work.recover, p) → k = 0
  served : ∀ (k : ℕ) request p, s.tasks[k]? = some (Work.request request, p) → s.serving = true

lemma serving_iff : s.serving = true ↔ ∃ a, s.tasks[0]? = some (.recover, .done (.inr (.ok a))) := by
  unfold Service.serving
  split
  · rename_i a l hl
    simp [hl]
  · rename_i hne
    simp only [Bool.false_eq_true, false_iff, not_exists]
    intro a ha
    cases hl : s.tasks with
    | nil => simp [hl] at ha
    | cons task l =>
      rw [hl, List.getElem?_cons_zero, Option.some.injEq] at ha
      exact hne a l (by rw [hl, ha])

lemma serving_spawn (h : s.serving = true) {p : Program ServiceCall ServiceAnswer (HttpReply ⊕ Reply)} :
    Service.serving (s.spawn w p) = true := by
  obtain ⟨a, ha⟩ := serving_iff.mp h
  refine serving_iff.mpr ⟨a, ?_⟩
  rwa [Pool.spawn, List.getElem?_append_left (List.getElem?_eq_some_iff.mp ha).1]

lemma serving_task (h : s.serving = true) {o : Outcome ⊕ Event}
    (hs : s.stepTask (exec v.cfg) k o = some s') : s'.serving = true := by
  obtain ⟨a, ha⟩ := serving_iff.mp h
  obtain ⟨t, e, next, r, u, ht, -, rfl⟩ := Pool.stepTask_cases hs
  refine serving_iff.mpr ⟨a, ?_⟩
  rw [List.getElem?_set_ne]
  · exact ha
  · rintro rfl
    rw [ht] at ha
    cases ha

/-- A step of a task leaves what each task was started for. -/
lemma task_before {o : Outcome ⊕ Event} (hs : s.stepTask (exec v.cfg) k o = some s') {j : ℕ}
    {p : Program ServiceCall ServiceAnswer (HttpReply ⊕ Reply)} (hj : s'.tasks[j]? = some (w, p)) :
    ∃ p', s.tasks[j]? = some (w, p') := by
  obtain ⟨t, e, next, r, u, ht, -, rfl⟩ := Pool.stepTask_cases hs
  by_cases hkj : k = j
  · subst hkj
    rw [List.getElem?_set_self (List.getElem?_eq_some_iff.mp ht).1, Option.some.injEq,
      Prod.mk.injEq] at hj
    exact ⟨_, hj.1 ▸ ht⟩
  · exact ⟨p, by rwa [List.getElem?_set_ne hkj] at hj⟩

/-- No other task asks for what a loop or recovery asks for. -/
lemma Asks.job {w' : Work} {op : Op} {f f' : Reply → HttpReply ⊕ Reply} (h : Asks v w op f)
    (h' : Asks v w' op f') (notRequest : ∀ request, w' ≠ .request request) :
    w = w' ∧ f = .inr := by
  cases w' with
  | request request => exact absurd rfl (notRequest request)
  | _ =>
    obtain ⟨rfl, -⟩ := h'
    cases w with
    | request request =>
      obtain ⟨mutation, -, hop, -⟩ := h
      cases mutation <;> cases hop
    | _ => simp_all [Asks]

/-- A program that was handed over has ended where the whole task has. -/
lemma done_of_embed {q : Program Call Answer Reply} {f : Reply → HttpReply ⊕ Reply}
    {b : HttpReply ⊕ Reply}
    (h : (embed managerCalls q >>= fun a => .done (f a)) = .done b) : ∃ a, q = .done a ∧ f a = b := by
  cases q with
  | done a =>
    cases h
    exact ⟨a, rfl, rfl⟩
  | call c next => cases h

lemma Represents.system_serving (h : Represents v s m place) (hs : s.serving = true) :
    m.serving = true := by
  refine List.all_eq_true.mpr fun task htask => ?_
  obtain ⟨j, hlt, hj⟩ := List.mem_iff_getElem.mp htask
  obtain ⟨k, hk⟩ := h.delegates.onto j hlt
  obtain ⟨w, op, q, f, hw, hm, q₀, asks, -⟩ := h.delegates.placed k j hk
  obtain rfl : task = (op, q) := by
    rw [List.getElem?_eq_getElem hlt, hj] at hm
    exact Option.some.inj hm
  by_cases hop : op = .recover
  · subst hop
    obtain ⟨rfl, rfl⟩ := asks.job (show Asks v .recover .recover .inr from ⟨rfl, rfl⟩) (by simp)
    obtain rfl := h.first k _ hw
    obtain ⟨a, ha⟩ := serving_iff.mp hs
    rw [hw, Option.some.injEq, Prod.mk.injEq] at ha
    obtain ⟨r, rfl, hr⟩ := done_of_embed ha.2
    cases hr
    rfl
  · cases op <;> first | rfl | exact absurd rfl hop

/-- Where no pass of a loop is in flight, none of its manager tasks is. -/
lemma Represents.admits (h : Represents v s m place) {loop : Work} {op : Op}
    (hs : s.waits loop = true) (hop : Asks v loop op .inr)
    (notRequest : ∀ request, loop ≠ .request request) :
    (m.tasks.all fun task => task.1 ≠ op || !inFlight task) = true := by
  refine List.all_eq_true.mpr fun task htask => ?_
  obtain ⟨j, hlt, hj⟩ := List.mem_iff_getElem.mp htask
  obtain ⟨k, hk⟩ := h.delegates.onto j hlt
  obtain ⟨w, op', q, f, hw, hm, q₀, asks, -⟩ := h.delegates.placed k j hk
  obtain rfl : task = (op', q) := by
    rw [List.getElem?_eq_getElem hlt, hj] at hm
    exact Option.some.inj hm
  by_cases hne : op' = op
  · subst hne
    obtain ⟨rfl, -⟩ := asks.job hop notRequest
    have ended := List.all_eq_true.mp hs _ (List.mem_of_getElem? hw)
    cases q with
    | done a => simp [inFlight]
    | call c next => simp at ended
  · simp [hne]

/-- A pass of a loop, or a recovery, is handed over when it starts. -/
lemma Represents.job (h : Represents v s m place) {op : Op} (asks : Asks v w op .inr)
    (hw : work v w = embed managerCalls (program v.cfg op) >>= fun r => .done (.inr r))
    (loop : w ≠ .recover) (notRequest : ∀ request, w ≠ .request request) :
    Represents v (s.spawn w (work v w)) (m.spawn op (program v.cfg op))
      (Function.update place s.tasks.length (some m.tasks.length)) := by
  have free := h.delegates.place_length le_rfl
  refine ⟨(h.delegates.spawn ((before_work w).mono fun _ _ => trivial)).start (f := .inr) (k := s.tasks.length) (u := w) ?_ free
    ⟨asks, rfl⟩, ?_, ?_, ?_⟩
  · rw [← hw, Pool.spawn, List.getElem?_concat_length]
  · intro k u p hk hnone
    by_cases hlen : k = s.tasks.length
    · rw [hlen, Function.update_self] at hnone
      cases hnone
    · rw [Function.update_of_ne hlen] at hnone
      rw [Pool.spawn, List.getElem?_append] at hk
      split at hk
      · exact h.placed k u p hk hnone
      · rw [List.getElem?_singleton] at hk
        simp [show k - s.tasks.length ≠ 0 by omega] at hk
  · intro k p hk
    rw [Pool.spawn, List.getElem?_append] at hk
    split at hk
    · exact h.first k p hk
    · rw [List.getElem?_singleton] at hk
      split at hk
      · cases hk
        exact absurd rfl loop
      · cases hk
  · intro k request p hk
    rw [Pool.spawn, List.getElem?_append] at hk
    split at hk
    · exact serving_spawn (h.served k request p hk)
    · rw [List.getElem?_singleton] at hk
      split at hk
      · cases hk
        exact absurd rfl (notRequest request)
      · cases hk

/-- A request is handed over later, if at all. -/
lemma Represents.request (h : Represents v s m place) (hs : s.serving = true) (request : HttpRequest) :
    Represents v (s.spawn (.request request) (work v (.request request))) m place := by
  refine ⟨h.delegates.spawn ((before_work _).mono fun _ _ => trivial), ?_, ?_, fun _ _ _ _ => serving_spawn hs⟩
  · intro k u p hk hnone
    rw [Pool.spawn, List.getElem?_append] at hk
    split at hk
    · exact h.placed k u p hk hnone
    · rw [List.getElem?_singleton] at hk
      split at hk
      · cases hk
        exact ⟨request, rfl⟩
      · cases hk
  · intro k p hk
    rw [Pool.spawn, List.getElem?_append] at hk
    split at hk
    · exact h.first k p hk
    · rw [List.getElem?_singleton] at hk
      split at hk <;> cases hk

/-- A change of the state alone. -/
lemma Represents.world (h : Represents v s m place) {u : State} {x : World} (hx : x = u.manager) :
    Represents v { s with world := u } { m with world := x } place :=
  ⟨⟨hx, h.delegates.placed, h.delegates.single, h.delegates.onto, h.delegates.unplaced⟩, h.placed,
    h.first, h.served⟩

lemma Parses.validated {request : HttpRequest} {mutation : Mutation}
    (h : Parses v request mutation) : Validated v.parseIpv6 (opOf mutation) := by
  cases request with
  | createChallenge asn => exact h.elim
  | createPeer payload =>
    obtain ⟨peerName, endpoint, linkLocal, hname, -, hlink, rfl⟩ := CreatePeerReq.parse_ok h
    exact ⟨⟨_, hname⟩, _, _, _, hlink⟩
  | updatePeer payload =>
    obtain ⟨peerName, endpoint, linkLocal, hname, -, hlink, rfl⟩ := UpdatePeerReq.parse_ok h
    exact ⟨⟨_, hname⟩, _, _, _, hlink⟩
  | deletePeer payload =>
    obtain ⟨peerName, hname, rfl⟩ := DeletePeerReq.parse_ok h
    exact ⟨_, hname⟩

lemma represents_recovery {u : State} {x : World} (hx : x = u.manager) :
    Represents v ⟨u, [(.recover, work v .recover)]⟩ ⟨x, [(.recover, program v.cfg .recover)]⟩
      (fun k => if k = 0 then some 0 else none) := by
  have only : ∀ {k w p}, [(Work.recover, work v .recover)][k]? = some (w, p) →
      k = 0 ∧ w = .recover := by
    intro k w p hk
    rw [List.getElem?_singleton] at hk
    split at hk
    · cases hk
      exact ⟨‹k = 0›, rfl⟩
    · cases hk
  refine ⟨⟨hx, fun k j hk => ?_, fun k k' j hk hk' => ?_, fun j hj => ⟨0, ?_⟩, fun k w p hk hnone => ?_⟩,
    fun k w p hk hnone => ?_, fun k p hk => (only hk).1, fun k request p hk => ?_⟩
  · obtain ⟨rfl, rfl⟩ : k = 0 ∧ 0 = j := by simpa using hk
    exact ⟨.recover, .recover, _, .inr, rfl, rfl, _, ⟨rfl, rfl⟩, rfl⟩
  · obtain ⟨rfl, -⟩ : k = 0 ∧ 0 = j := by simpa using hk
    obtain ⟨rfl, -⟩ : k' = 0 ∧ 0 = j := by simpa using hk'
    rfl
  · obtain rfl : j = 0 := by simpa using hj
    rfl
  · simp [(only hk).1] at hnone
  · simp [(only hk).1] at hnone
  · cases (only hk).2

/-- The task turns to the manager with a request for this mutation. -/
def TurnsWith (v : Deployment) (s : Service) (k : ℕ) (mutation : Mutation) : Prop :=
  ∃ request c next, s.tasks[k]? = some (.request request, .call (.inl c) next) ∧
    Parses v request mutation

/-- A step of the manager that this step of the service stands for: a request starts when it turns to
the manager, and what an administrator does is the same. -/
def StandsFor (v : Deployment) (s : Service) (l : Label) : ManagerSystem.Label → Prop
  | .task .. => True
  | .start op => op = .syncPendingPeerChanges ∨ op = .syncNftPorts ∨
    ∃ k mutation, TurnsWith v s k mutation ∧ op = opOf mutation
  | .sqlStatus peerId status => l = .sqlStatus peerId status
  | .sqlDelete peerId => l = .sqlDelete peerId
  | .restart => l = .restart

lemma StandsFor.validated {l : Label} {l' : ManagerSystem.Label} (h : StandsFor v s l l') :
    ValidatedStep v.parseIpv6 m l' := by
  rintro op rfl
  obtain rfl | rfl | ⟨k, mutation, ⟨request, c, next, -, hm⟩, rfl⟩ := h
  · trivial
  · trivial
  · exact hm.validated

/-- Each step of the service is none, one or two of the manager. -/
theorem represents_step {l : Label} (h : Represents v s m place) (hs : step v l s = some s') :
    ∃ m', Reaches (ManagerSystem.step v.cfg) (fun _ => StandsFor v s l) m m' ∧
      ∃ place', Represents v s' m' place' := by
  cases l with
  | task k o =>
    have tags := fun {j w p} => task_before hs (j := j) (w := w) (p := p)
    have first : ∀ (k : ℕ) p, s'.tasks[k]? = some (Work.recover, p) → k = 0 := fun j p hj => by
      obtain ⟨p', hp'⟩ := tags hj
      exact h.first j p' hp'
    have served : ∀ (k : ℕ) request p, s'.tasks[k]? = some (Work.request request, p) → s'.serving = true :=
      fun j request p hj => by
        obtain ⟨p', hp'⟩ := tags hj
        exact serving_task (h.served j request p' hp') hs
    have placed : ∀ (k : ℕ) w p, s'.tasks[k]? = some (w, p) → place k = none →
        ∃ request, w = Work.request request := fun j w p hj hnone => by
      obtain ⟨p', hp'⟩ := tags hj
      exact h.placed j w p' hp' hnone
    rcases h.delegates.stepTask (extends_exec v.cfg) hs with hd | ⟨j, o', m', hm', hd⟩ |
      ⟨w, p, op, q, f, j, o', m', place', hk, hp, hnone, ⟨asks, rfl⟩, hm', hd, hplace⟩
    · exact ⟨m, .refl, place, hd, placed, first, served⟩
    · exact ⟨m', Reaches.refl.tail (.task j o') trivial hm', place, hd, placed, first, served⟩
    · obtain ⟨request, rfl⟩ := h.placed k w p hk hnone
      have serving := h.system_serving (h.served k request p hk)
      have turns : ∃ c next, p = .call (.inl c) next := by
        obtain ⟨_, e, next, _, _, ht, -, -⟩ := Pool.stepTask_cases hs
        cases hk.symm.trans ht
        obtain ⟨c, -, rfl, -⟩ := embed_call_eq hp
        exact ⟨c, next, rfl⟩
      obtain ⟨c, next, rfl⟩ := turns
      have started : ManagerSystem.step v.cfg (.start op) m = some (m.spawn op (program v.cfg op)) := by
        obtain ⟨mutation, -, rfl, -⟩ := asks
        cases mutation <;> simp [ManagerSystem.step, serving, System.admits, opOf]
      obtain ⟨mutation, hm, rfl, -⟩ := asks
      exact ⟨m', (Reaches.refl.tail (.start (opOf mutation))
        (.inr (.inr ⟨k, mutation, ⟨request, c, next, hk, hm⟩, rfl⟩)) started).tail (.task j o') trivial hm',
          place', hd, fun k' w' p' hk' hnone' => placed k' w' p' hk' (hplace k' hnone'), first, served⟩
  | request request =>
    obtain ⟨serving, hs⟩ := Option.ite_none_right_eq_some.mp hs
    cases hs
    exact ⟨m, .refl, place, h.request serving request⟩
  | notify =>
    obtain ⟨hc, hs⟩ := Option.ite_none_right_eq_some.mp hs
    cases hs
    obtain ⟨serving, waits⟩ := Bool.and_eq_true_iff.mp hc
    have admits : m.admits .syncPendingPeerChanges = true :=
      h.admits waits ⟨rfl, rfl⟩ (by simp)
    refine ⟨_, Reaches.refl.tail (.start .syncPendingPeerChanges) (.inl rfl) ?_, _,
      h.job ⟨rfl, rfl⟩ rfl (by simp) (by simp)⟩
    rw [ManagerSystem.step, h.system_serving serving, admits]
    rfl
  | tick =>
    obtain ⟨hc, hs⟩ := Option.ite_none_right_eq_some.mp hs
    cases hs
    obtain ⟨serving, waits⟩ := Bool.and_eq_true_iff.mp hc
    have admits : m.admits .syncNftPorts = true :=
      h.admits waits ⟨rfl, rfl⟩ (by simp)
    refine ⟨_, Reaches.refl.tail (.start .syncNftPorts) (.inr (.inl rfl)) ?_, _,
      h.job ⟨rfl, rfl⟩ rfl (by simp) (by simp)⟩
    rw [ManagerSystem.step, h.system_serving serving, admits]
    rfl
  | sqlStatus peerId status =>
    cases hs
    refine ⟨_, Reaches.refl.tail (.sqlStatus peerId status) rfl rfl, place, h.world ?_⟩
    rw [h.delegates.world]
  | sqlDelete peerId =>
    cases hs
    refine ⟨_, Reaches.refl.tail (.sqlDelete peerId) rfl rfl, place, h.world ?_⟩
    rw [h.delegates.world]
  | restart =>
    cases hs
    refine ⟨_, Reaches.refl.tail .restart rfl rfl, _, represents_recovery ?_⟩
    rw [h.delegates.world]

lemma represents_stopped {w : World} :
    Represents v (Service.stopped v w) (System.stopped w) fun _ => none := by
  refine ⟨⟨rfl, by simp, by simp, by simp [System.stopped], by simp [Service.stopped]⟩, ?_, ?_, ?_⟩ <;>
    simp [Service.stopped]

/-- In every run of the service, the manager behaves as it does alone under validated requests. -/
theorem refines {w : World} {P : Service → Label → Prop}
    (h : Reaches (step v) P (Service.stopped v w) s) :
    ∃ m, Reaches (ManagerSystem.step v.cfg) (ValidatedStep v.parseIpv6) (System.stopped w) m ∧
      ∃ place, Represents v s m place := by
  refine h.simulation (B := fun s m => ∃ place, Represents v s m place) ⟨_, represents_stopped⟩
    fun u l u' m ⟨place, hm⟩ _ hs => ?_
  obtain ⟨m', hm', represents⟩ := represents_step hm hs
  exact ⟨m', hm'.mono fun _ _ hl => hl.validated, represents⟩

end Refinement

section Sample

def samplePubkey : WgPubKey := ⟨"xTIBA5rboUvnH4htodjb6e697QjLERt1NAB4mZqp8Dg="⟩

def sampleAuth : String :=
  "ssh-ed25519 AAAAC3NzaC1lZDI1NTE5AAAAIEgsxlVRZwTHofX9mQG9OPRHP5qPQUp55t4fvz3mD71L"

def sampleChallenge : Challenge where
  auth := sampleAuth
  signature :=
    "-----BEGIN SSH SIGNATURE-----\n" ++
    "U1NIU0lHAAAAAQAAADMAAAALc3NoLWVkMjU1MTkAAAAgSCzGVVFnBMeh9f2ZAb049Ec/mo\n" ++
    "9BSnnm3h+/PeYPvUsAAAAEZG40MgAAAAAAAAAGc2hhNTEyAAAAUwAAAAtzc2gtZWQyNTUx\n" ++
    "OQAAAECmJy0MxFusEKzoPN0Jjdws5XmptjxilFHI9swZe0BwDioW63h3JlO3mjX2Bnv+yr\n" ++
    "DGdhEYaLv10A47eLwQZPAI\n-----END SSH SIGNATURE-----"
  nonce := "8WjuTR6NeEQ0HWKvIJohPOBKmojGgSWhRZnnxXKDnsU="
  expiresAt := 1750000300

def sampleMessage : String :=
  "DN42-AUTOPEER-V3\noperation:create\nasn:4242421111\npeer_name:r1\n" ++
  "pubkey:xTIBA5rboUvnH4htodjb6e697QjLERt1NAB4mZqp8Dg=\nendpoint:none\nlink_local:auto\n" ++
  "mtu:default\nnonce:8WjuTR6NeEQ0HWKvIJohPOBKmojGgSWhRZnnxXKDnsU=\nexpires_at:1750000300"

/-- The one signature that was made with the key. -/
def sampleVerify (publicKey signature message : String) : Except PeerError Unit :=
  if publicKey = sampleAuth ∧ signature = sampleChallenge.signature ∧ message = sampleMessage then
    .ok ()
  else .error (.signatureVerificationFailed "Signature verification failed: cryptographic error")

def sampleDeployment : Deployment where
  cfg := sampleConfig
  site := ⟨"fra1.example.net", "HIgo9xNzJMWLKASShiTqIybxZ0U3wGLiUeJ1PKf8ykw="⟩
  verify := sampleVerify
  parseUrl := fun _ => none
  parseIpv6 := sampleParser
  maxConcurrent := 1

def sampleRequest : HttpRequest :=
  .createPeer ⟨4242421111, " r1", samplePubkey, none, false, none, none, none, sampleChallenge⟩

/-- Task `index` makes `n` calls of the manager that all work. -/
def manages (index n : ℕ) : List Label := List.replicate n (.task index (.inl .ok))

/-- A first start, a challenge, and a create with it. -/
def sampleRun : List Label :=
  .restart :: manages 0 9 ++
    [.request (.createChallenge 4242421111), .task 1 (.inr (.reads 1750000000)),
      .task 1 (.inr (.generates sampleChallenge.nonce)), .task 1 (.inr .ok),
      .task 1 (.inr (.reads 1750000000)), .task 1 (.inr .ok), .task 1 (.inr .ok),
      .request sampleRequest, .task 2 (.inr (.reads 1750000300)), .task 2 (.inr .ok),
      .task 2 (.inr .ok), .task 2 (.inr (.reads 1750000300)), .task 2 (.inr .ok),
      .task 2 (.inr (.registry true)), .task 2 (.inr .ok)] ++ manages 2 20

theorem refines_sample : ∃ s m,
    steps (step sampleDeployment) sampleRun
      (Service.stopped sampleDeployment (emptyWorld [] [] ⟨none, ∅⟩)) = some s ∧
    s.world.manager.peers.length = 1 ∧
    Reaches (ManagerSystem.step sampleConfig) (ValidatedStep sampleParser)
      (System.stopped (emptyWorld [] [] ⟨none, ∅⟩)) m ∧
    ∃ place, Represents sampleDeployment s m place := by
  have run : (steps (step sampleDeployment) sampleRun
      (Service.stopped sampleDeployment (emptyWorld [] [] ⟨none, ∅⟩))).map
        (fun s => s.world.manager.peers.length) = some 1 := by
    decide +kernel
  obtain ⟨s, hs, hrows⟩ := Option.map_eq_some_iff.mp run
  obtain ⟨m, hm, represents⟩ := refines (steps_reaches (P := fun _ _ => True)
    (Schedule.of_forall fun _ _ _ => trivial) hs)
  exact ⟨s, m, hs, hrows, hm, represents⟩

end Sample

end Autopeer.ServiceSystem
