import Autopeer.CreateCompensation
import Autopeer.FirewallConvergence
import Autopeer.InterfaceTending

/-! The interfaces follow the rows. In every state of every run, whatever fails and whenever the process
ends, each id is settled or an event of it waits in the queue. -/
namespace Autopeer.InterfaceConvergence
open PeerData ProgramTree ProgramPool TransitionRuns
open ManagerWorld ManagerPrograms ManagerSystem ManagerRules ManagerEffects
open TableIdentity TableDiscipline TableInvariant ChangeDelivery
open InterfaceTurns NamedInterfaces InterfaceTending
open SnapshotConvergence (Single single_of_quiet single_step inFlight_before)

variable {cfg : Config} {w w' : World} {s s' : System} {l : Label} {k : UInt32} {op : Op}

section Service

/-- Recovery in flight has no task beside it. -/
def Lone (s : System) : Prop :=
  ∀ (i : ℕ) p, s.tasks[i]? = some (Op.recover, p) → inFlight (.recover, p) → s.tasks.length = 1

lemma lone_step (h : Lone s) (hs : step cfg l s = some s') : Lone s' := by
  intro i p hi hp
  by_cases hl : l = .restart
  · subst hl
    cases hs
    rfl
  rcases inFlight_before hs hl hi hp with ⟨q, hq, hfly⟩ | ⟨-, -, rfl⟩
  · have one := h i q hq hfly
    cases l with
    | task j o =>
      obtain ⟨_, _, _, _, _, _, -, rfl⟩ := Pool.stepTask_cases hs
      rw [List.length_set]
      exact one
    | start new =>
      simp only [step, Option.ite_none_right_eq_some, Bool.and_eq_true] at hs
      have serving := List.all_eq_true.mp hs.1.1 _ (List.mem_of_getElem? hq)
      cases q with
      | done a => cases hfly
      | call e next => cases serving
    | sqlStatus peerId status =>
      cases hs
      exact one
    | sqlDelete peerId =>
      cases hs
      exact one
    | restart => exact absurd rfl hl
  · simp [step, System.admits] at hs

lemma single_run (h : Single s) (hs : step cfg l s = some s') : Single s' := by
  by_cases hl : l = .restart
  · subst hl
    cases hs
    intro i j p q hi
    simp [List.getElem?_singleton] at hi
  · exact single_step h hs hl

/-- The tasks keep to the discipline, and somebody sees to every id. -/
def Tended : System → Prop := Keeps hands (fun op m _ => Ended op m) Tending

variable {μ : ℕ → Hand} {i : ℕ}

/-- A pass and recovery have what they need for themselves. -/
lemma alone_of_flying (hT : Tending s.world μ) (hob : Obeys hands (fun op m _ => Ended op m) μ s)
    (single : Single s) (lone : Lone s) {e : Call} {next : Answer e → Program Call Answer Reply}
    (ht : s.tasks[i]? = some (op, .call e next)) : Alone μ i := by
  have hop : (μ i).op = op := hand_op (hob.follows i op _ ht)
  refine ⟨fun hl j hj => ?_, fun hr j => ?_⟩
  · obtain rfl : op = .syncPendingPeerChanges := hop.symm.trans hl
    by_cases hlj : (μ j).op = .syncPendingPeerChanges
    · cases htask : s.tasks[j]? with
      | none =>
        rw [hob.resting j (List.getElem?_eq_none_iff.mp htask)]
        exact ⟨rfl, rfl⟩
      | some task =>
        obtain ⟨op', p⟩ := task
        obtain rfl : op' = .syncPendingPeerChanges := (hand_op (hob.follows j op' p htask)).symm.trans hlj
        cases p with
        | done a => exact ⟨(hob.ended htask).idle, (hob.ended htask).changes (by simp)⟩
        | call e' next' => exact absurd (single j i _ _ htask ht rfl rfl) hj
    · by_cases hrj : (μ j).op = .recover
      · rcases hT.lone j i hrj with hs | hr
        · rw [hs]
          exact ⟨rfl, rfl⟩
        · rw [hl] at hr
          cases hr
      · refine ⟨?_, (hT.hand j).request hlj hrj⟩
        by_contra hp
        exact hlj ((hT.hand j).working hp).1
  · obtain rfl : op = .recover := hop.symm.trans hr
    have one := lone i _ ht rfl
    have hi := (List.getElem?_eq_some_iff.mp ht).1
    rcases eq_or_ne j i with rfl | hj
    · exact hr
    · rw [hob.resting j (by omega)]
      rfl

lemma tended_step (h : Tended s) (ids : Identified s.world.toTables) (single : Single s) (lone : Lone s)
    (hs : step cfg l s = some s') : Tended s' := by
  by_cases hstart : ∃ op, l = .start op
  · obtain ⟨op, rfl⟩ := hstart
    obtain ⟨μ, hob, hT⟩ := h
    simp only [step, Option.ite_none_right_eq_some, Bool.and_eq_true, Option.some.injEq] at hs
    obtain ⟨⟨serving, admits⟩, rfl⟩ := hs
    have hop : op ≠ .recover := by
      rintro rfl
      cases admits
    have hob' : Obeys hands (fun op m _ => Ended op m) (forgetting μ) s := by
      refine ⟨fun j op p hj => ?_, fun j hj => ?_⟩
      · by_cases hr : (μ j).op = .recover
        · obtain rfl : op = .recover := (hand_op (hob.follows j op p hj)).symm.trans hr
          rw [forgetting, if_pos hr]
          have served := List.all_eq_true.mp serving _ (List.mem_of_getElem? hj)
          cases p with
          | done a => exact ⟨rfl, rfl, fun hne => absurd rfl hne⟩
          | call e next => cases served
        · rw [forgetting, if_neg hr]
          exact hob.follows j op p hj
      · rw [forgetting, hob.resting j hj]
        exact ite_self _
    exact ⟨_, hob'.spawn follows_program, (hT.forgetting ids).start ids (hob'.resting _ le_rfl)
      (fun j => forgetting_recover) hop⟩
  refine obeying_step h hs ?_ (fun op hl => absurd ⟨op, hl⟩ hstart) ?_ ?_ ?_
  · rintro i o - μ op e next a w' hob ht hT hx
    exact ⟨hands_answer ids hx,
      hT.call ids (alone_of_flying hT hob single lone ht) hx (hob.allowed ht)⟩
  · rintro peerId status - μ - hT
    exact hT.withTables ids (grown_updateRow ..) (by rw [updateRow_born]; exact List.Subset.refl _)
      fun _ => rowMoved_updateRow fun _ => rfl
  · rintro peerId - μ - hT
    exact hT.withTables ids (grown_deleteRow ..) (by rw [deleteRow_born]; exact List.Subset.refl _)
      fun _ => rowMoved_deleteRow
  · rintro - μ - hT
    refine ⟨.start .recover, follows_program, ?_⟩
    change Tending _ (Function.update (fun _ => .start .recover) 0 (.start .recover))
    rw [Function.update_eq_self]
    refine .stopped fun k => (hT.settled k).imp_left fun hs => ?_
    exact hs.frame ids rfl fun _ _ => Iff.rfl

/-- From a stopped service in which each id is settled or has an event in the queue: so it is in every
state of every run, whatever steps fail, however the calls of the tasks and the statements of
administrators are mixed, and wherever the process ends and starts again. -/
theorem settled_or_queued (ids : Identified w.toTables)
    (before : ∀ k, Settled w k ∨ ∃ e ∈ w.events, e.peer.peerId = k)
    (run : Reaches (step cfg) (fun _ _ => True) (System.stopped w) s) (k : UInt32) :
    Settled s.world k ∨ ∃ e ∈ s.world.events, e.peer.peerId = k := by
  have start : Tended (System.stopped w) ∧ Single (System.stopped w) ∧ Lone (System.stopped w) :=
    ⟨⟨_, Obeys.nil, .stopped before⟩, fun _ _ _ _ hi => by simp [System.stopped] at hi,
      fun _ _ hi => by simp [System.stopped] at hi⟩
  have kept := run.invariant_with (J := fun u => Tended u ∧ Single u ∧ Lone u)
    (K := fun u => Identified u.world.toTables) start (fun u hu => identified_reaches ids hu)
    fun u l v hids hJ _ hs => by
      obtain ⟨ht, hsingle, hlone⟩ := hJ
      exact ⟨tended_step ht hids hsingle hlone hs, single_run hsingle hs, lone_step hlone hs⟩
  obtain ⟨⟨μ, -, hT⟩, -⟩ := kept
  exact hT.settled k

end Service

section Sample
open OperationEffects InterfaceEffects CreateCompensation

/-- The interfaces agree with a table of Active and Disabled rows. -/
lemma Agrees.settled (h : Agrees cfg w) (ids : Identified w.toTables)
    (final : ∀ r ∈ w.peers, r.status = .active ∨ r.status = .disabled) (k : UInt32) : Settled w k := by
  unfold Settled
  cases hr : w.row? k with
  | none =>
    refine h.noOthers k fun r hm hid => ?_
    rw [← hid, row?_eq_of_mem ids.rowIds hm] at hr
    cases hr
  | some p =>
    obtain ⟨hp, rfl⟩ := row?_some hr
    rcases final p hp with active | disabled
    · exact .inl ⟨active, h.ifaces p hp (by simp [Peer.enabled, active])⟩
    · refine .inr ⟨disabled, h.noOthers _ fun r hm hid => ?_⟩
      obtain rfl := List.inj_on_of_nodup_map ids.rowIds hm hp hid
      simp [Peer.enabled, disabled]

/-- The process ends in the middle of a create; recovery and one pass of the listener finish it. -/
theorem settled_or_queued_sample : ∃ s : System,
    Reaches (step sampleConfig) (fun _ _ => True) (System.stopped servedWorld) s ∧
    s.world.events = [] ∧ ∃ p, s.world.row? 3 = some p ∧ Configured p s.world := by
  have run : (steps (step sampleConfig) (FirewallConvergence.recoverySteps ++
      .start FirewallConvergence.sampleCreate :: runs 1 12 ++ .restart :: runs 0 24 ++
        .start .syncPendingPeerChanges :: runs 1 61) (System.stopped servedWorld)).map (fun s =>
          (s.world.events, (s.world.row? 3).map Peer.status)) = some ([], some .active) := by
    decide +kernel
  obtain ⟨s, hs, run⟩ := Option.map_eq_some_iff.mp run
  obtain ⟨empty, hrow⟩ := Prod.mk.inj run
  obtain ⟨p, hp, active⟩ := Option.map_eq_some_iff.mp hrow
  have reached := steps_reaches (Schedule.of_forall fun _ _ _ => trivial) hs
  refine ⟨s, reached, empty, p, hp, ?_⟩
  rcases settled_or_queued servedWorld_identified (fun k => .inl (Agrees.settled servedWorld_agrees
    servedWorld_identified (by decide) k)) reached 3 with hset | ⟨e, he, -⟩
  · rw [Settled, hp] at hset
    rcases hset with ⟨-, set⟩ | ⟨disabled, -⟩
    · exact set
    · rw [active] at disabled
      cases disabled
  · rw [empty] at he
    cases he

end Sample

end Autopeer.InterfaceConvergence
