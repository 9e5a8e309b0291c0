import Autopeer.ServiceLedger
import Autopeer.TableProvenance

/-! On whose authority the rows are what they are. Whatever requests come and however they are mixed,
every row is what signed mutations have made of it, and only a signed delete or an administrator takes
a row away. -/
namespace Autopeer.ServiceAuthority
open Ipv6 PeerData SignedMessage ProgramTree ProgramPool TransitionRuns
open ManagerWorld ManagerPrograms ManagerSystem ManagerEffects TableIdentity TableProvenance
open ChallengeSystem SingleUse HttpHandlers ServiceSystem ServiceClearance ServiceLedger

variable {v : Deployment} {w : World} {s s' : Service}

/-- The mutation was signed with a key that the registry approved of for the AS, over a challenge of the
AS that was consumed in time. -/
def Signed (v : Deployment) (u : State) (mutation : Mutation) : Prop :=
  ∃ (challenge : Challenge) (now : Int64),
    v.verify challenge.auth challenge.signature
      (mutation.message challenge.nonce challenge.expiresAt) = .ok () ∧
    (⟨challenge.nonce, asnOf mutation, challenge.expiresAt⟩, now) ∈ u.store.consumed ∧
    now ≤ challenge.expiresAt ∧ ⟨asnOf mutation, challenge.auth⟩ ∈ u.approved

/-- A request to the manager was signed; the loops and recovery need no signature. -/
def Authorized (v : Deployment) (u : State) : Op → Prop
  | .createPeer asn peerName pubkey endpoint linkLocal mtu =>
    Signed v u (.create asn peerName pubkey endpoint linkLocal mtu)
  | .updatePeer asn peerName pubkey endpoint linkLocal mtu =>
    Signed v u (.update asn peerName pubkey endpoint linkLocal mtu)
  | .deletePeer asn peerName => Signed v u (.delete asn peerName)
  | .syncPendingPeerChanges | .syncNftPorts | .recover => True

section Histories
variable {u u' : State} {mutation : Mutation} {op : Op}

lemma authorized_opOf : Authorized v u (opOf mutation) ↔ Signed v u mutation := by
  cases mutation <;> rfl

/-- The histories only grow. -/
structure Longer (u u' : State) : Prop where
  consumed : u.store.consumed ⊆ u'.store.consumed
  approved : u.approved ⊆ u'.approved

lemma Signed.mono (h : Signed v u mutation) (longer : Longer u u') : Signed v u' mutation := by
  obtain ⟨challenge, now, verified, spent, inTime, approved⟩ := h
  exact ⟨challenge, now, verified, longer.consumed spent, inTime, longer.approved approved⟩

lemma Authorized.mono (h : Authorized v u op) (longer : Longer u u') : Authorized v u' op := by
  cases op <;> first | exact Signed.mono h longer | trivial

lemma longer_exec {cfg : Config} {o : Outcome ⊕ Event} {e : ServiceCall} {r : ServiceAnswer e}
    (hx : exec cfg o e u = some (r, u')) : Longer u u' := by
  cases e with
  | inl c =>
    obtain ⟨outcome, x, -, rfl⟩ := exec_manager hx
    exact ⟨List.Subset.refl _, List.Subset.refl _⟩
  | inr q =>
    obtain ⟨event, x, hq, rfl⟩ := exec_query hx
    refine ⟨?_, List.subset_append_left _ _⟩
    by_cases spends : ∃ row now, q = .deleteNonce row now
    · obtain ⟨row, now, rfl⟩ := spends
      cases event <;> cases hq
      · exact List.subset_append_left _ _
      · exact List.Subset.refl _
      · exact List.subset_append_left _ _
    · have same := (spent_frame hq fun row now h => spends ⟨row, now, h⟩).1
      exact fun x hx => same ▸ hx

lemma longer_step {l : ServiceSystem.Label} (hs : ServiceSystem.step v l s = some s') :
    Longer s.world s'.world := by
  have refl : Longer s.world s.world := ⟨List.Subset.refl _, List.Subset.refl _⟩
  cases l with
  | task i o =>
    obtain ⟨t, e, next, r, u', -, hx, rfl⟩ := Pool.stepTask_cases hs
    exact longer_exec hx
  | request request =>
    obtain ⟨-, hs⟩ := Option.ite_none_right_eq_some.mp hs
    cases hs
    exact refl
  | notify =>
    obtain ⟨-, hs⟩ := Option.ite_none_right_eq_some.mp hs
    cases hs
    exact refl
  | tick =>
    obtain ⟨-, hs⟩ := Option.ite_none_right_eq_some.mp hs
    cases hs
    exact refl
  | _ =>
    cases hs
    exact ⟨List.Subset.refl _, List.Subset.refl _⟩

/-- A request that turns to the manager shows its signature in the histories. -/
lemma TurnsWith.signed {base : UInt32 → ℕ} {k : ℕ} (h : TurnsWith v s k mutation)
    (kept : Kept v base s) : Signed v s.world mutation := by
  obtain ⟨request, c, next, hk, hm⟩ := h
  obtain ⟨n, ν, μ, hob, hJ⟩ := kept
  obtain ⟨mutation', challenge, now, hm', -, verified, spent, approved⟩ :=
    (hob.allowed hk).2.1 request (work_of_task hob hk)
  obtain rfl := Parses.unique _ hm' hm
  rw [← Parses.asn hm] at spent approved
  have used : uses s.world.store ⟨challenge.nonce, asnOf mutation', challenge.expiresAt⟩ ≠ 0 := by
    have hcount := hJ.accounts.spent ⟨challenge.nonce, asnOf mutation', challenge.expiresAt⟩
    intro hzero
    rw [hzero, Nat.cast_zero, nonpos_iff_eq_zero, Set.encard_eq_zero] at hcount
    exact Set.eq_empty_iff_forall_notMem.mp hcount (n, k)
      ⟨now, (congrArg Prod.fst (hJ.current k)).trans spent⟩
  obtain ⟨x, hx, hrow⟩ := List.mem_map.mp (List.count_pos_iff.mp (Nat.pos_of_ne_zero used))
  obtain ⟨row, time⟩ := x
  obtain rfl : row = _ := hrow
  refine ⟨challenge, time, verified, hx, hJ.accounts.inTime _ hx, List.count_pos_iff.mp ?_⟩
  by_contra hzero
  have none := hJ.approved ⟨asnOf mutation', challenge.auth⟩
  rw [Nat.eq_zero_of_not_pos hzero, Nat.cast_zero, nonpos_iff_eq_zero, Set.encard_eq_zero] at none
  have current : (ν (n, k)).2.approved = (μ k).passage.2.approved := by rw [hJ.current k]
  exact Set.eq_empty_iff_forall_notMem.mp none (n, k) (current.trans approved)

end Histories

section Rows
variable {r : Peer} {L : ServiceSystem.Label → Prop}

/-- A step of the manager that is authorized in the end, or an administrator's of this kind. -/
def Backed (v : Deployment) (u : State) (L : ServiceSystem.Label → Prop) : ManagerSystem.Label → Prop
  | .task .. | .restart => True
  | .start op => Authorized v u op
  | .sqlStatus peerId status => L (.sqlStatus peerId status)
  | .sqlDelete peerId => L (.sqlDelete peerId)

lemma StandsFor.backed {base : UInt32 → ℕ} {l : ServiceSystem.Label} {l' : ManagerSystem.Label}
    (h : StandsFor v s l l') (kept : Kept v base s) (hl : L l) : Backed v s.world L l' := by
  cases l' with
  | start op =>
    obtain rfl | rfl | ⟨k, mutation, turns, rfl⟩ := h
    · trivial
    · trivial
    · exact authorized_opOf.mpr (TurnsWith.signed turns kept)
  | sqlStatus peerId status =>
    obtain rfl : l = .sqlStatus peerId status := h
    exact hl
  | sqlDelete peerId =>
    obtain rfl : l = .sqlDelete peerId := h
    exact hl
  | _ => trivial

/-- The manager does alone what it does in the service, on requests that were all signed. -/
lemma refines_backed (h : Reaches (ServiceSystem.step v) (fun _ l => L l) (Service.stopped v w) s) :
    ∃ m, Reaches (ManagerSystem.step v.cfg) (fun _ => Backed v s.world L) (System.stopped w) m ∧
      ∃ place, Represents v s m place := by
  induction h with
  | refl => exact ⟨_, .refl, _, represents_stopped⟩
  | @tail u u' l prior hl hs ih =>
    obtain ⟨m, run, place, represents⟩ := ih
    obtain ⟨m', run', represents'⟩ := represents_step represents hs
    have mono : ∀ l', Backed v u.world L l' → Backed v u'.world L l' := fun l' hb => by
      cases l' <;> first | exact Authorized.mono hb (longer_step hs) | exact hb
    refine ⟨m', (run.mono fun _ l' hb => mono l' hb).trans (run'.mono fun _ l' hb => mono l' ?_),
      represents'⟩
    exact StandsFor.backed hb (Reaches.kept prior) hl

/-- In every run of the service each row is what signed mutations have made of a row of the start or of
a row that a signed create inserted. -/
theorem rows_signed {P : Service → ServiceSystem.Label → Prop} (ids : Identified w.toTables)
    (h : Reaches (ServiceSystem.step v) P (Service.stopped v w) s) :
    ∀ p ∈ s.world.manager.peers, Derived v.cfg w.peers (Authorized v s.world) p := by
  obtain ⟨m, run, place, represents⟩ := refines_backed (L := fun _ => True) (h.mono fun _ _ _ => trivial)
  rw [← represents.delegates.world]
  exact rows_derived ids (run.mono fun _ l hb op hop => by
    subst hop
    exact hb)

/-- The administrators neither delete nor mark the row. -/
def AdminsLeave (r : Peer) : ServiceSystem.Label → Prop
  | .sqlStatus peerId status => peerId = r.peerId → status ≠ .deleting
  | .sqlDelete peerId => peerId ≠ r.peerId
  | _ => True

/-- In every run of the service in which the administrators leave it, a row stays, under its identity
and not marked, as long as no delete of its pair was signed. -/
theorem rows_stay_unless_signed (ids : Identified w.toTables) (here : r ∈ w.peers)
    (alive : r.status ≠ .deleting)
    (h : Reaches (ServiceSystem.step v) (fun _ l => AdminsLeave r l) (Service.stopped v w) s)
    (undeleted : ¬Signed v s.world (.delete r.asn r.peerName)) :
    ∃ q ∈ s.world.manager.peers, identity q = identity r ∧ q.status ≠ .deleting := by
  obtain ⟨m, run, place, represents⟩ := refines_backed h
  rw [← represents.delegates.world]
  refine rows_stay ids here alive (run.mono fun _ l hb => ?_)
  cases l with
  | start op =>
    rintro rfl
    exact undeleted hb
  | sqlStatus peerId status => exact hb
  | sqlDelete peerId => exact hb
  | _ => trivial

end Rows

section Sample
open OperationEffects TableInvariant

theorem rows_signed_sample : ∃ s p,
    Reaches (ServiceSystem.step sampleDeployment) (fun _ _ => True)
      (Service.stopped sampleDeployment (emptyWorld [] [] ⟨none, ∅⟩)) s ∧
    p ∈ s.world.manager.peers ∧ Derived sampleConfig [] (Authorized sampleDeployment s.world) p := by
  have run : (steps (ServiceSystem.step sampleDeployment) sampleRun
      (Service.stopped sampleDeployment (emptyWorld [] [] ⟨none, ∅⟩))).map
        (fun s => s.world.manager.peers.length) = some 1 := by
    decide +kernel
  obtain ⟨s, hs, rows⟩ := Option.map_eq_some_iff.mp run
  have reached := steps_reaches (P := fun _ _ => True) (Schedule.of_forall fun _ _ _ => trivial) hs
  obtain ⟨p, hp⟩ := List.exists_mem_of_length_pos (rows.symm ▸ Nat.one_pos)
  exact ⟨s, p, reached, hp,
    rows_signed (emptyWorld_inOrder (V := fun _ => True) [] [] ⟨none, ∅⟩).identified reached p hp⟩

/-- A delete with a signature that was made for a create. -/
def forgedDelete : HttpRequest := .deletePeer ⟨4242421111, "a", sampleChallenge⟩

/-- Recovery, the forged delete, and an administrator who disables the row. -/
def forgedRun : List ServiceSystem.Label :=
  .restart :: manages 0 18 ++
    [.request forgedDelete, .task 1 (.inr (.reads 1750000000)), .sqlStatus 1 .disabled]

/-- Task `k` was this request, and was answered with this status. -/
def answeredWith (s : Service) (k : ℕ) (request : HttpRequest) : Option ℕ :=
  match s.tasks[k]? with
  | some (.request r, .done (.inl reply)) => if r = request then some reply.status else none
  | _ => none

theorem rows_stay_unless_signed_sample : ∃ s : Service,
    answeredWith s 1 forgedDelete = some 400 ∧
    ∃ q ∈ s.world.manager.peers, identity q = identity (Recovery.sampleRow 1 "a" .active) ∧
      q.status ≠ .deleting := by
  have run : (steps (ServiceSystem.step sampleDeployment) forgedRun
      (Service.stopped sampleDeployment servedWorld)).map (fun s =>
        (answeredWith s 1 forgedDelete, s.world.store.consumed)) = some (some 400, []) := by
    decide +kernel
  obtain ⟨s, hs, ends⟩ := Option.map_eq_some_iff.mp run
  obtain ⟨answered, unspent⟩ := Prod.mk.inj ends
  have leaves : ∀ l ∈ forgedRun, AdminsLeave (Recovery.sampleRow 1 "a" .active) l := fun l hl => by
    simp only [forgedRun, manages, List.cons_append, List.mem_cons, List.mem_append,
      List.mem_replicate, List.not_mem_nil, or_false] at hl
    rcases hl with rfl | ⟨-, rfl⟩ | rfl | rfl | rfl
    · trivial
    · trivial
    · trivial
    · trivial
    · exact fun _ => by simp
  refine ⟨s, answered, rows_stay_unless_signed servedWorld_identified (by decide) (by decide)
    (steps_reaches (Schedule.of_forall fun l hl _ => leaves l hl) hs) ?_⟩
  rintro ⟨challenge, now, -, spent, -⟩
  rw [unspent] at spent
  cases spent

end Sample

end Autopeer.ServiceAuthority
