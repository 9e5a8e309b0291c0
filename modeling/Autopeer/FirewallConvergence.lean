import Autopeer.SnapshotConvergence
import Autopeer.Recovery
import Autopeer.OperationEffects

/-! The firewall set against the table. Every list that a request or the listener installs is followed
by an event of the queue; the reconciler reads its list before it waits for the lock, and no event
follows its batch. -/
namespace Autopeer.FirewallConvergence
open PeerData ProgramTree ProgramRuns ProgramPool TransitionRuns
open ManagerWorld ManagerPrograms ManagerSystem ManagerFootprints ManagerEffects
open TableIdentity TableDiscipline SnapshotWriters SnapshotConvergence

variable {cfg : Config} {w w' : World} {s s' : System}

/-- The ports of the rows that are neither deleting nor disabled. -/
def admittedPorts (peers : List Peer) : Finset UInt16 :=
  ((peers.filter Peer.enabled).map Peer.listenPort).toFinset

section Part

lemma mem_admittedPorts {peers : List Peer} {port : UInt16} :
    port ∈ admittedPorts peers ↔ ∃ p ∈ peers, p.enabled ∧ p.listenPort = port := by
  simp [admittedPorts, and_assoc]

lemma nftPorts_admitted (peers : List Peer) : (nftPorts peers).toFinset = admittedPorts peers := by
  ext port
  rw [List.mem_toFinset, mem_nftPorts, mem_admittedPorts]

lemma admittedPorts_listPeers (t : Tables) :
    admittedPorts (t.listPeers cfg) = admittedPorts t.peers := by
  ext port
  simp only [mem_admittedPorts, mem_listPeers]

lemma effect_nft {c : Io} (h : ∀ ports, c ≠ .runNftBatch ports) :
    (effect cfg c w).2.nft = w.nft :=
  effect_projection World.nft (fun _ => rfl) (fun _ => rfl) (fun ports hc => absurd hc (h ports))
    fun _ _ _ _ => rfl

lemma exec_nft {o : Outcome} {e : Call} {a : Answer e} (hx : exec cfg o e w = some (a, w'))
    (h : ∀ ports, e ≠ .io (.runNftBatch ports)) : w'.nft = w.nft := by
  cases e with
  | lock l => rw [OperationEffects.exec_lock hx]
  | unlock l => rw [OperationEffects.exec_unlock hx]
  | resolveEndpoint text =>
    cases o <;> simp only [exec, reduceCtorEq, Option.some.injEq, Prod.mk.injEq] at hx <;> rw [← hx.2]
  | io c =>
    have whole := @effect_nft cfg w c fun ports hp => h ports (by rw [hp])
    exact exec_projection World.nft hx whole (fun _ => InterfaceEffects.addLink_nft) fun _ _ _ _ => rfl

/-- The set, as the part of the world that the writers of it share. -/
def firewall (cfg : Config) : Outlet cfg (Finset UInt16) where
  shown w := w.nft.toFinset
  wanted := admittedPorts
  writes c :=
    match c with
    | .runNftBatch ports => some ports.toFinset
    | _ => none
  onBird := false
  writes_nft peers := by simp [nftPorts_admitted]
  writes_bird _ _ := rfl
  writes_other c hnft _ := by
    cases c <;> first | rfl | exact absurd rfl (hnft _)
  wanted_listed t _ := admittedPorts_listPeers t
  shown_frame o e a w w' hx h := by
    rw [exec_nft hx]
    rintro ports rfl
    cases h _ rfl
  shown_write o c v w w' x hx hw := by
    cases c <;> cases hw
    obtain ⟨-, rfl⟩ := Prod.mk.inj (exec_ok hx)
    rfl
  shown_batch o ports a w w' x hx hw := by
    cases hw
    rcases (OperationEffects.exec_runNftBatch hx).2 with h | h
    · exact .inl (by rw [h])
    · exact .inr (by rw [h])
  shown_tables _ _ := rfl
  shown_locks _ _ := rfl

end Part

section Runs
variable {l : Label}

/-- An event is in the queue that no pass of the listener has come to. -/
def eventWaits (s : System) : Bool :=
  1 < s.world.events.length || !s.world.events.isEmpty &&
    s.tasks.all fun task => task.1 ≠ .syncPendingPeerChanges || !inFlight task

/-- No restart, and a batch of the reconciler is of the ports that the table then admits, unless an
event waits. -/
def timely (s : System) : Label → Bool
  | .task i _ =>
    match s.tasks[i]? with
    | some (.syncNftPorts, .call (.io (.runNftBatch ports)) _) =>
      ports.toFinset = admittedPorts s.world.peers || eventWaits s
    | _ => true
  | .restart => false
  | _ => true

/-- A step of a task that works, or the start of a request or of a background job. -/
def works : Label → Bool
  | .task _ .ok | .start _ => true
  | _ => false

lemma covered_of_eventWaits (h : eventWaits s) : Covered s := by
  simp only [eventWaits, Bool.or_eq_true, Bool.and_eq_true, decide_eq_true_eq, Bool.not_eq_true',
    List.isEmpty_eq_false_iff, List.all_eq_true] at h
  refine h.imp_right fun ⟨hne, hall⟩ => ⟨hne, fun task ht hop => ?_⟩
  exact (hall task ht).resolve_left fun h => h hop

lemma timely_firewall (h : timely s l) : l ≠ .restart ∧ Timely (firewall cfg) s l := by
  refine ⟨fun hl => by simp [hl, timely] at h, ?_⟩
  cases l with
  | task i o =>
    intro ports next x hi hx
    cases hx
    simp only [timely, hi, Bool.or_eq_true, decide_eq_true_eq] at h
    exact h.imp_right covered_of_eventWaits
  | _ => trivial

/-- Recovery leaves the set that the table asks for. -/
theorem recovery_installs (own : Recovery.OwnRows w.peers)
    (h : Ends (exec cfg) (fun _ _ => True) w recover.run (.ok ()) w') :
    w'.nft.toFinset = admittedPorts w'.peers := by
  have recovered := Recovery.recover_spec own h
  rw [recovered.nft, nftPorts_admitted, admittedPorts_listPeers]
  ext port
  simp only [mem_admittedPorts, recovered.rows]
  constructor
  · rintro ⟨r, hr, he, rfl⟩
    have alive : r.status ≠ .deleting := fun hd => by simp [Peer.enabled, hd] at he
    refine ⟨_, ⟨r, hr, alive, rfl⟩, ?_⟩
    rw [Recovery.recoveredRow, if_pos he]
    exact ⟨rfl, rfl⟩
  · rintro ⟨_, ⟨r, hr, -, rfl⟩, he, rfl⟩
    by_cases hr' : r.enabled
    · exact ⟨r, hr, hr', by rw [Recovery.recoveredRow, if_pos hr']; rfl⟩
    · rw [Recovery.recoveredRow, if_neg hr'] at he
      exact absurd he hr'

/-- From a quiet state in which the set is that of the table: along every run without a restart in
which the reconciler's batches are timely, whatever the tasks' calls and the statements of
administrators, the set is that of the table again whenever all is quiet and no event is left. -/
theorem firewall_converges (ids : Identified w.toTables)
    (before : Reaches (step cfg) (fun _ _ => True) (System.stopped w) s) (quiet₀ : s.quiet)
    (installed₀ : s.world.nft.toFinset = admittedPorts s.world.peers)
    (run : Reaches (step cfg) (fun u l => timely u l) s s')
    (quiet : s'.quiet) (empty : s'.world.events = []) :
    s'.world.nft.toFinset = admittedPorts s'.world.peers :=
  converges (U := firewall cfg) ids before quiet₀ installed₀
    (run.mono fun _ _ => timely_firewall) quiet empty

end Runs

section Sample
open OperationEffects

def sampleCreate : Op := .createPeer 4242421111 "c" ⟨"new key"⟩ none none none

/-- A restart, and a recovery that ends well. -/
def recoverySteps : List Label := .restart :: runs 0 18

/-- All tasks have ended; does the test hold, and is the queue empty? -/
def settledOn (test : System → Bool) (s : System) : Option (Bool × Bool) :=
  if s.tasks.all fun task => !inFlight task then some (test s, s.world.events.isEmpty) else none

lemma settledOn_some {test : System → Bool} {a b : Bool} (h : settledOn test s = some (a, b)) :
    s.quiet ∧ test s = a ∧ (s.world.events = [] ↔ b) := by
  rw [settledOn, Option.ite_none_right_eq_some] at h
  obtain ⟨hall, h⟩ := h
  simp only [Option.some.injEq, Prod.mk.injEq] at h
  refine ⟨fun task ht => by simpa using List.all_eq_true.mp hall task ht, h.1, ?_⟩
  rw [← h.2, List.isEmpty_iff]

/-- Is the set that of the table? -/
def portsInstalled (s : System) : Bool := s.world.nft.toFinset = admittedPorts s.world.peers

/-- The reconciler lists the peers before a create begins, and writes its list while the event of the
create waits for the listener. -/
theorem firewall_converges_sample : ∃ t : System, t.quiet ∧ t.world.events = [] ∧
    21111 ∈ t.world.nft ∧ t.world.nft.toFinset = admittedPorts t.world.peers := by
  have run : ((steps (step sampleConfig) recoverySteps (System.stopped servedWorld)).bind fun s =>
      (settledOn portsInstalled s).bind fun a =>
        (steps (guarded (step sampleConfig) fun u l => timely u l)
          (.start .syncNftPorts :: runs 1 1 ++ .start sampleCreate :: runs 2 20 ++ runs 1 3 ++
            .start .syncPendingPeerChanges :: runs 3 46) s).map fun t =>
          (a, settledOn portsInstalled t, decide (21111 ∈ t.world.nft))) =
        some ((true, false), some (true, true), true) := by
    decide +kernel
  obtain ⟨s, hs, run⟩ := Option.bind_eq_some_iff.mp run
  obtain ⟨a, ha, run⟩ := Option.bind_eq_some_iff.mp run
  obtain ⟨t, ht, run⟩ := Option.map_eq_some_iff.mp run
  simp only [Prod.mk.injEq, decide_eq_true_eq] at run
  obtain ⟨rfl, ht', hport⟩ := run
  obtain ⟨quiet₀, installed₀, -⟩ := settledOn_some ha
  obtain ⟨quiet, -, empty⟩ := settledOn_some ht'
  exact ⟨t, quiet, empty.mpr rfl, hport, firewall_converges servedWorld_identified
    (steps_reaches (Schedule.of_forall fun _ _ _ => trivial) hs) quiet₀ (of_decide_eq_true installed₀)
    (steps_guarded_reaches ht) quiet (empty.mpr rfl)⟩

/-- The same, but the reconciler waits for the lock until the listener is through: the port of the new
peer stays closed, with all quiet and nothing in the queue. -/
theorem stale_set_stays : ∃ s t : System,
    Reaches (step sampleConfig) (fun _ _ => True) (System.stopped servedWorld) s ∧ s.quiet ∧
    s.serving ∧ s.world.nft.toFinset = admittedPorts s.world.peers ∧
    Reaches (step sampleConfig) (fun _ l => works l) s t ∧ t.quiet ∧ t.world.events = [] ∧
    t.world.nft.toFinset ≠ admittedPorts t.world.peers := by
  have run : ((steps (step sampleConfig) recoverySteps (System.stopped servedWorld)).bind fun s =>
      (settledOn portsInstalled s).bind fun a =>
        (steps (guarded (step sampleConfig) fun _ l => works l)
          (.start .syncNftPorts :: runs 1 1 ++ .start sampleCreate :: runs 2 20 ++
            .start .syncPendingPeerChanges :: runs 3 46 ++ runs 1 3) s).map fun t =>
          (a, s.serving, settledOn portsInstalled t)) =
        some ((true, false), true, some (false, true)) := by
    decide +kernel
  obtain ⟨s, hs, run⟩ := Option.bind_eq_some_iff.mp run
  obtain ⟨a, ha, run⟩ := Option.bind_eq_some_iff.mp run
  obtain ⟨t, ht, run⟩ := Option.map_eq_some_iff.mp run
  simp only [Prod.mk.injEq] at run
  obtain ⟨rfl, serving, ht'⟩ := run
  obtain ⟨quiet₀, installed₀, -⟩ := settledOn_some ha
  obtain ⟨quiet, stale, empty⟩ := settledOn_some ht'
  exact ⟨s, t, steps_reaches (Schedule.of_forall fun _ _ _ => trivial) hs, quiet₀, serving,
    of_decide_eq_true installed₀, steps_guarded_reaches ht, quiet, empty.mpr rfl, of_decide_eq_false stale⟩

end Sample

end Autopeer.FirewallConvergence
