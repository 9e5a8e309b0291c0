import Autopeer.OperationEffects
import Autopeer.ServiceSystem
import Autopeer.SingleUse

/-! What a request needs before it may turn to the manager: a challenge of its own, consumed in time, a
signature of what it asks for, and the approval of the registry; and that each task asks for these in
order and reserves at most one row. -/
namespace Autopeer.ServiceClearance
open Ipv6 PeerData SignedMessage ProgramTree ProgramPool TransitionRuns ProgramEmbedding
open ManagerWorld ManagerPrograms ManagerSystem ManagerFootprints ManagerEffects ManagerRules
open OperationEffects TableInvariant
open ChallengeSystem SingleUse HttpHandlers ServiceSystem

section Passage

/-- Whether a task holds a permit of the registry, and what the registry approved of for it. -/
structure Permit where
  held : Bool
  approved : Option Approval

def Permit.none : Permit := ⟨false, Option.none⟩

def permitAllowed (m : Permit) : Query → Prop
  | .tryAcquire => m.held = false
  | .release | .deleteNonce .. | .checkRegistry .. => m.held = true
  | _ => True

def permitNext (m : Permit) : (e : Query) → Result e → Permit
  | .tryAcquire, permit => { m with held := permit }
  | .release, _ => { m with held := false }
  | .checkRegistry asn publicKey, .ok true => { m with approved := some ⟨asn, publicKey⟩ }
  | _, _ => m

def permitting : Discipline Query Result Permit :=
  ⟨.none, permitAllowed, fun _ _ _ => True, permitNext⟩

/-- The queries that have nothing to do with the permit. -/
def Unpermitted : Query → Prop
  | .tryAcquire | .release | .deleteNonce .. | .checkRegistry .. => False
  | _ => True

lemma permitting_kept {m : Permit} {e : Query} (h : Unpermitted e) :
    permitting.allowed m e ∧ ∀ r, permitting.next m e r = m := by
  cases e <;> first | exact ⟨trivial, fun _ => rfl⟩ | exact h.elim

lemma calls_tryNonces (asn : UInt32) (expiresAt : Int64) (n : ℕ) :
    Calls Unpermitted (tryNonces asn expiresAt n).run := by
  induction n with
  | zero => trivial
  | succ n ih =>
    refine ⟨trivial, fun nonce =>
      Calls.run_bind (x := insertNonce asn nonce expiresAt) ?_ fun inserted => ?_⟩
    · refine ⟨trivial, fun r => ?_⟩
      cases r with
      | error e => trivial
      | ok _ =>
        refine ⟨trivial, fun now => ⟨trivial, fun r => ?_⟩⟩
        cases r with
        | error e => trivial
        | ok _ => exact ⟨trivial, fun r => trivial⟩
    · cases inserted with
      | true => trivial
      | false => exact ih

lemma permitting_issueChallenge (asn : UInt32) (m : Permit) :
    Follows permitting (issueChallenge asn).run m fun m' _ => m' = m :=
  Follows.of_calls <| Calls.mono (fun _ => permitting_kept)
    ⟨trivial, fun now => calls_tryNonces asn (now + challengeTtlSecs) 4⟩

variable {verify : String → String → String → Except PeerError Unit}

/-- An authorization gives its permit back on every path, and ends well only with an approval. -/
lemma permitting_authorizeRequest {asn : UInt32} {publicKey signature nonce message : String}
    {expiresAt : Int64} :
    Follows permitting (authorizeRequest verify asn publicKey signature nonce expiresAt message).run
      .none fun m r => m.held = false ∧ (r = .ok () → m.approved = some ⟨asn, publicKey⟩) := by
  refine ⟨trivial, fun now _ => ?_⟩
  change Follows permitting (ExceptT.run (if expiresAt < now then _ else _)) .none _
  split
  · exact ⟨rfl, by simp⟩
  split
  · exact ⟨rfl, by simp⟩
  refine ⟨rfl, fun permit _ => ?_⟩
  cases permit with
  | false => exact ⟨rfl, by simp⟩
  | true =>
    refine follows_bind.mpr (Follows.run_bind (x := consumeNonce asn nonce expiresAt)
      (B := fun m r => m = ⟨true, none⟩) ?_ (fun m' consumed hm => ?_) fun m' e hm => ?_)
    · refine ⟨trivial, fun r _ => ?_⟩
      cases r with
      | error e => rfl
      | ok _ => exact ⟨trivial, fun now _ => ⟨rfl, fun r _ => rfl⟩⟩
    · subst hm
      cases consumed with
      | false => exact ⟨rfl, fun _ _ => ⟨rfl, by simp⟩⟩
      | true =>
        refine ⟨rfl, fun r _ => ?_⟩
        match r with
        | .error e => exact ⟨rfl, fun _ _ => ⟨rfl, by simp⟩⟩
        | .ok false => exact ⟨rfl, fun _ _ => ⟨rfl, by simp⟩⟩
        | .ok true => exact ⟨rfl, fun _ _ => ⟨rfl, fun _ => rfl⟩⟩
    · subst hm
      exact ⟨rfl, fun _ _ => ⟨rfl, by simp⟩⟩

/-- What a task has of the challenges and of the registry. -/
def passing : Discipline Query Result (Holding × Permit) := holding.both permitting

end Passage

section Reservation

/-- A task that has not reserved may reserve one row, of its AS if it has one. -/
def reserving (asn : Option UInt32) : Discipline Call Answer Bool where
  rest := false
  allowed := fun reserved e =>
    match e with
    | .io (.reservePeer peer _) => reserved = false ∧ asn = some peer.asn
    | _ => True
  answer := fun _ _ _ => True
  next := fun reserved e r =>
    match e, r with
    | .io (.reservePeer ..), .ok false => reserved
    | .io (.reservePeer ..), _ => true
    | _, _ => reserved

/-- The calls that reserve nothing. -/
def Unreserving : Call → Prop
  | .io (.reservePeer ..) => False
  | _ => True

variable {asn : UInt32} {cfg : Config} {reserved : Bool}

lemma reserving_kept {a : Option UInt32} {e : Call} (h : Unreserving e) :
    (reserving a).allowed reserved e ∧ ∀ r, (reserving a).next reserved e r = reserved := by
  cases e with
  | io c => cases c <;> first | exact ⟨trivial, fun _ => rfl⟩ | exact h.elim
  | _ => exact ⟨trivial, fun _ => rfl⟩

lemma follows_of_unreserving {asn : Option UInt32} {α : Type} {p : Program Call Answer α}
    (h : Calls Unreserving p) : Follows (reserving asn) p reserved fun _ _ => True :=
  (Follows.of_calls (h.mono fun _ => reserving_kept)).mono fun _ _ _ => trivial

lemma Background.unreserving {e : Call} (h : Background e) : Unreserving e := by
  cases e with
  | io c => cases c <;> first | exact trivial | exact h
  | _ => trivial

lemma OnPeer.unreserving {p : Peer} {W : Peer → Prop} {e : Call} (h : OnPeer p W e) :
    Unreserving e := by
  cases e with
  | io c => cases c <;> first | exact trivial | exact h.elim
  | _ => trivial

/-- The search tries on only after a refusal. -/
lemma reserving_reserveFrom {peerName : String} {test : Bool} {peerAt : UInt16 → Peer}
    {increments : List ℕ} (hasn : ∀ port, (peerAt port).asn = asn) :
    Follows (reserving (some asn)) (reserveFrom asn peerName test peerAt increments).run false
      fun _ _ => True := by
  induction increments with
  | nil => exact follows_throw trivial
  | cons increment increments ih =>
    refine follows_io_bind trivial (fun inUse _ => ?_) fun _ _ => trivial
    cases inUse with
    | true => exact ih
    | false =>
      refine follows_io_bind ⟨rfl, (hasn _).symm ▸ rfl⟩ (fun reserved _ => ?_) fun _ _ => trivial
      cases reserved with
      | true => exact follows_return trivial
      | false =>
        refine follows_io_bind trivial (fun taken _ => ?_) fun _ _ => trivial
        cases taken with
        | true => exact follows_throw trivial
        | false => exact ih

lemma reserving_reservePeer {peerName : String} {pubkey : WgPubKey} {endpoint : Option String}
    {linkLocal : Option (Ipv6Addr × Ipv6Addr)} {mtu : UInt16} :
    Follows (reserving (some asn)) (reservePeer cfg asn peerName pubkey endpoint linkLocal mtu).run false
      fun _ _ => True := by
  refine Follows.run_bind (x := allocatePeerId) (B := fun m _ => m = false) ?_ (fun m peerId hm => ?_)
    fun _ _ _ => trivial
  · refine follows_io_bind trivial (fun n _ => ?_) fun _ _ => rfl
    split <;> rfl
  · subst hm
    generalize List.range 10000 = increments
    exact reserving_reserveFrom fun _ => rfl

lemma reserving_perform (mutation : Mutation) :
    Follows (reserving (some (asnOf mutation))) (perform cfg mutation).run false fun _ _ => True := by
  cases mutation with
  | create asn peerName pubkey endpoint linkLocal mtu =>
    refine follows_withLock trivial fun _ => ?_
    refine follows_io_bind trivial (fun taken _ => ?_) fun _ _ => ⟨trivial, fun _ => trivial⟩
    cases taken with
    | true => exact follows_throw ⟨trivial, fun _ => trivial⟩
    | false =>
      refine Follows.run_bind (B := fun _ _ => True) ?_ (fun m' peer _ => ?_)
        fun _ _ _ => ⟨trivial, fun _ => trivial⟩
      · refine follows_withLock trivial fun _ => ?_
        exact reserving_reservePeer.mono fun _ _ _ => ⟨trivial, fun _ => trivial⟩
      · split
        · exact follows_return ⟨trivial, fun _ => trivial⟩
        · exact (follows_of_unreserving ((calls_provision (W := fun _ => True) asn).mono
            fun _ => OnPeer.unreserving)).mono fun _ _ _ => ⟨trivial, fun _ => trivial⟩
  | update asn peerName pubkey endpoint linkLocal mtu =>
    refine follows_of_unreserving (calls_withLock trivial trivial (Calls.run_bind (calls_io trivial)
      fun row => Calls.run_bind (calls_orNotFound row) fun old => ?_))
    split
    · exact calls_throw _
    · refine Calls.run_bind (calls_io trivial) fun stored => ?_
      cases stored with
      | false => exact calls_throw _
      | true =>
        exact Calls.mono (fun _ => OnPeer.unreserving)
          (calls_reprovision (W := fun _ => True) asn peerName (p := old) trivial rfl rfl)
  | delete asn peerName =>
    refine follows_of_unreserving (calls_withLock trivial trivial (Calls.run_bind (calls_io trivial)
      fun row => Calls.run_bind (calls_orNotFound row) fun peer => Calls.run_bind (calls_io trivial)
        fun marked => ?_))
    cases marked with
    | false => exact calls_throw _
    | true =>
      exact Calls.mono (fun _ => OnPeer.unreserving)
        (calls_dismantle (W := fun _ => True) (p := peer) asn peerName)

end Reservation

section Clearance
variable (v : Deployment)

/-- The task has consumed the challenge of the request, for a signature of what is asked for, and the
registry approved of the key. -/
def Cleared (request : HttpRequest) (m : Holding × Permit) : Prop :=
  ∃ mutation challenge now, Parses v request mutation ∧
    request.challenge? = some challenge ∧
    v.verify challenge.auth challenge.signature
      (mutation.message challenge.nonce challenge.expiresAt) = .ok () ∧
    m.1 = .spent ⟨challenge.nonce, request.asn, challenge.expiresAt⟩ now ∧
    m.2.approved = some ⟨request.asn, challenge.auth⟩

/-- What a task was started for, what it has of the challenges and of the registry, and whether it has
reserved, or may not. -/
structure Standing where
  work : Option Work
  passage : Holding × Permit
  reserved : Bool

def Standing.start (w : Work) : Standing := ⟨some w, passing.rest, false⟩

def Standing.asn (m : Standing) : Option UInt32 :=
  match m.work with
  | some (.request request) => some request.asn
  | _ => none

/-- A request turns to the manager when it is cleared and has given back its permit. -/
def clearanceAllowed (m : Standing) : ServiceCall → Prop
  | .inl c =>
    m.passage.2.held = false ∧
    (∀ request, m.work = some (.request request) → Cleared v request m.passage) ∧
    (reserving m.asn).allowed m.reserved c
  | .inr q => (∃ request, m.work = some (.request request)) ∧ passing.allowed m.passage q

def clearanceNext (m : Standing) : (e : ServiceCall) → ServiceAnswer e → Standing
  | .inl c, r => { m with reserved := (reserving m.asn).next m.reserved c r }
  | .inr q, r => { m with passage := passing.next m.passage q r }

def clearance : Discipline ServiceCall ServiceAnswer Standing :=
  ⟨⟨none, passing.rest, false⟩, clearanceAllowed v, fun _ _ _ => True, clearanceNext⟩

/-- A task that has ended has no permit, and a request that was carried out was cleared. -/
def Ends (w : Work) (m : Standing) (a : HttpReply ⊕ Reply) : Prop :=
  m.work = some w ∧ m.passage.2.held = false ∧ ∀ request, w = .request request →
    ∀ status response, a = .inl ⟨status, .peer response⟩ → Cleared v request m.passage

variable {v}

lemma Parses.asn {request : HttpRequest} {mutation : Mutation} (h : Parses v request mutation) :
    asnOf mutation = request.asn := by
  cases request with
  | createChallenge asn => exact h.elim
  | createPeer payload =>
    obtain ⟨peerName, endpoint, linkLocal, -, -, -, rfl⟩ := CreatePeerReq.parse_ok h
    rfl
  | updatePeer payload =>
    obtain ⟨peerName, endpoint, linkLocal, -, -, -, rfl⟩ := UpdatePeerReq.parse_ok h
    rfl
  | deletePeer payload =>
    obtain ⟨peerName, -, rfl⟩ := DeletePeerReq.parse_ok h
    rfl

/-- Before it turns to the manager a request moves on its passage alone. -/
lemma restricts_authorizer (request : HttpRequest) :
    Restricts passing (clearance v) authorizerCalls Standing.passage fun m =>
      m.work = some (.request request) ∧ m.reserved = false where
  allowed := fun _ _ h ha => ⟨⟨request, h.1⟩, ha⟩
  answer := fun _ _ _ _ _ => ⟨trivial, trivial⟩
  next := fun _ _ _ _ => rfl
  kept := fun _ _ _ h => h

lemma restricts_manager {w : Work} {a : Option UInt32} {m : Holding × Permit}
    (hasn : (Standing.start w).asn = a) (held : m.2.held = false)
    (cleared : ∀ request, w = .request request → Cleared v request m) :
    Restricts (reserving a) (clearance v) managerCalls Standing.reserved fun m' =>
      m'.work = some w ∧ m'.passage = m where
  allowed := by
    rintro m' e ⟨hw, rfl⟩ ha
    refine ⟨held, fun request hr => cleared request (Option.some.inj (hw.symm.trans hr)), ?_⟩
    rwa [show m'.asn = a by rw [← hasn, Standing.asn, Standing.asn, hw, Standing.start]]
  answer := fun _ _ _ _ _ => trivial
  next := by
    rintro m' e r ⟨hw, rfl⟩
    rfl
  kept := fun _ _ _ h => h

lemma follows_mutate {request : HttpRequest} {parsed : Except PeerError Mutation}
    {challenge : Challenge} (hp : ∀ mutation, parsed = .ok mutation → Parses v request mutation)
    (hc : request.challenge? = some challenge) :
    Follows (clearance v)
      (((mutate v.verify v.site v.cfg parsed challenge).run >>= fun r => .done (respond r)) >>=
        fun reply => .done (.inl reply)) (Standing.start (.request request))
      (Ends v (.request request)) := by
  cases parsed with
  | error e => 
    refine ⟨rfl, rfl, fun _ _ status response ha => ?_⟩
    exact absurd (Sum.inl.inj ha) (intoResponse_error e status response)
  | ok mutation =>
    have hm := hp mutation rfl
    have hasn : asnOf mutation = request.asn := Parses.asn hm
    rw [mutate, settled_bind_run, following_ok, authorize, embedded_bind_run, bind_assoc, bind_assoc,
      follows_bind]
    refine Follows.mono (Follows.embed (restricts_authorizer (v := v) request)
      (m := Standing.start (.request request)) ⟨rfl, rfl⟩
      (follows_authorizeRequest.both permitting_authorizeRequest)) fun m r hend => ?_
    obtain ⟨⟨hwork, hreserved⟩, hauthorized, hheld, happroved⟩ := hend
    cases r with
    | error e =>
      refine ⟨hwork, hheld, fun _ _ status response ha => ?_⟩
      exact absurd (Sum.inl.inj ha) (intoResponse_error e status response)
    | ok _ =>
      obtain ⟨hverify, now, hspent⟩ := hauthorized.1 rfl
      have cleared : Cleared v request m.passage :=
        ⟨mutation, challenge, now, hm, hc, hverify, hasn ▸ hspent, hasn ▸ happroved rfl⟩
      rw [following_ok, embedded_bind_run, bind_assoc, follows_bind]
      have manager := restricts_manager (v := v) (w := .request request) (m := m.passage)
        (a := some (asnOf mutation)) (congrArg some hasn.symm) hheld fun request' hr => by
          cases hr
          exact cleared
      refine Follows.mono (Follows.embed manager (m := m) ⟨hwork, rfl⟩
        (hreserved ▸ reserving_perform mutation)) fun m' result hm' => ?_
      obtain ⟨⟨hwork', hpassage⟩, -⟩ := hm'
      cases result <;> exact ⟨hwork', hpassage ▸ hheld, fun request' hr _ _ _ => by
        cases hr
        exact hpassage ▸ cleared⟩

/-- A loop or a recovery reserves nothing and makes no query. -/
lemma follows_job {w : Work} {op : Op} (background : Calls Background (program v.cfg op))
    (notRequest : ∀ request, w ≠ .request request) :
    Follows (clearance v) (embed managerCalls (program v.cfg op) >>= fun r => .done (.inr r))
      (Standing.start w) (Ends v w) := by
  have manager := restricts_manager (v := v) (w := w) (m := passing.rest) rfl rfl fun request hr =>
    absurd hr (notRequest request)
  rw [follows_bind]
  refine Follows.mono (Follows.embed manager (m := Standing.start w) ⟨rfl, rfl⟩
    (follows_of_unreserving (background.mono fun _ => Background.unreserving))) fun m r hm => ?_
  obtain ⟨⟨hw, hpassage⟩, -⟩ := hm
  exact ⟨hw, hpassage ▸ rfl, fun request hr => absurd hr (notRequest request)⟩

lemma follows_work (w : Work) :
    Follows (clearance v) (work v w) (Standing.start w) (Ends v w) := by
  cases w with
  | request request =>
    cases request with
    | createChallenge asn =>
      rw [work, handle, createChallenge, embedded_bind_run, bind_assoc, bind_assoc, follows_bind]
      refine Follows.mono (Follows.embed (restricts_authorizer (v := v) (.createChallenge asn))
        (m := Standing.start (.request (.createChallenge asn))) ⟨rfl, rfl⟩
        (follows_issueChallenge.both (permitting_issueChallenge asn _))) fun m r hm => ?_
      obtain ⟨⟨hwork, -⟩, -, hpermit⟩ := hm
      cases r with
      | error e =>
        refine ⟨hwork, hpermit ▸ rfl, fun _ _ status response ha => ?_⟩
        exact absurd (Sum.inl.inj ha) (intoResponse_error e status response)
      | ok challenge =>
        refine ⟨hwork, hpermit ▸ rfl, fun _ _ status response ha => ?_⟩
        cases ha
    | createPeer payload => exact follows_mutate (fun _ h => h) rfl
    | updatePeer payload => exact follows_mutate (fun _ h => h) rfl
    | deletePeer payload => exact follows_mutate (fun _ h => h) rfl
  | syncPendingPeerChanges =>
    exact follows_job (calls_syncPendingPeerChanges.bind fun _ => trivial) (by simp)
  | syncNftPorts =>
    refine follows_job (Calls.bind ?_ fun _ => trivial) (by simp)
    exact Calls.run_bind (calls_io trivial) fun _ => calls_withLock trivial trivial (calls_io trivial)
  | recover =>
    exact follows_job ((calls_recover.mono fun _ => Job.background).bind fun _ => trivial) (by simp)

end Clearance

end Autopeer.ServiceClearance
