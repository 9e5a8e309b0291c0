import Autopeer.FirewallConvergence
import Autopeer.BirdImage
import Autopeer.DisabledPeer

/-! The BIRD files against the table. Whoever syncs them has an event of its own in the queue or works
on one, so an old list that is written late is always followed by a newer one. -/
namespace Autopeer.BirdConvergence
open PeerData BirdGeneration ProgramTree ProgramPool TransitionRuns
open ManagerWorld ManagerPrograms ManagerSystem ManagerEffects
open TableIdentity TableDiscipline SnapshotWriters SnapshotConvergence

variable {cfg : Config} {w w' : World} {s s' : System}

section Part

lemma effect_bird {c : Io} (h : ∀ peers force, c ≠ .syncBirdFiles peers force) :
    (effect cfg c w).2.bird = w.bird :=
  effect_projection World.bird (fun _ => rfl) (fun _ => rfl) (fun _ _ => rfl) fun peers force _ hc =>
    absurd hc (h peers force)

lemma exec_bird {o : Outcome} {e : Call} {a : Answer e} (hx : exec cfg o e w = some (a, w'))
    (h : ∀ peers force, e ≠ .io (.syncBirdFiles peers force)) : w'.bird = w.bird := by
  cases e with
  | lock l => rw [OperationEffects.exec_lock hx]
  | unlock l => rw [OperationEffects.exec_unlock hx]
  | resolveEndpoint text =>
    cases o <;> simp only [exec, reduceCtorEq, Option.some.injEq, Prod.mk.injEq] at hx <;> rw [← hx.2]
  | io c =>
    have other : ∀ peers force, c ≠ .syncBirdFiles peers force := fun peers force hc =>
      h peers force (by rw [hc])
    refine exec_projection World.bird hx (effect_bird other) (fun _ => InterfaceEffects.addLink_bird)
      fun peers force _ hc => absurd hc (other peers force)

/-- A sync that works leaves `current` with the files of its list. -/
lemma sync_current {localAsn : UInt32} {peers : List Peer} {force : Bool} {b b' : Bird}
    (h : b.sync localAsn peers force = (.ok (), b')) :
    b'.current = (desiredGeneration localAsn peers).toOption := by
  unfold Bird.sync at h
  split at h
  · cases h
  · rename_i desired hd
    rw [hd]
    split at h
    · rename_i same
      obtain ⟨-, rfl⟩ := Prod.mk.inj h
      split <;> exact same
    · obtain ⟨-, rfl⟩ := Prod.mk.inj h
      rfl

lemma desiredGeneration_table {t : Tables} (ids : Identified t) :
    desiredGeneration cfg.localAsn t.peers = .ok (rendering cfg.localAsn t.peers) :=
  desiredGeneration_ok (namesValid ids)

lemma desiredGeneration_listPeers {t : Tables} (ids : Identified t) :
    desiredGeneration cfg.localAsn (t.listPeers cfg) = .ok (rendering cfg.localAsn t.peers) :=
  BirdImage.desiredGeneration_perm (namesValid ids) (List.pairwise_map.mp ids.rowIds)
    (List.perm_insertionSort _ _)

/-- The files under `current`, as the part of the world that the syncs share. -/
def birdFiles (cfg : Config) : Outlet cfg (Option Generation) where
  shown w := w.bird.current
  wanted peers := (desiredGeneration cfg.localAsn peers).toOption
  writes c :=
    match c with
    | .syncBirdFiles peers _ => some (desiredGeneration cfg.localAsn peers).toOption
    | _ => none
  onBird := true
  writes_nft _ := rfl
  writes_bird _ _ := rfl
  writes_other c _ hbird := by
    cases c <;> first | rfl | exact absurd rfl (hbird _ _)
  wanted_listed t ids := by rw [desiredGeneration_listPeers ids, desiredGeneration_table ids]
  shown_frame o e a w w' hx h := by
    rw [exec_bird hx]
    rintro peers force rfl
    cases h _ rfl
  shown_write o c v w w' x hx hw := by
    cases c <;> cases hw
    rename_i peers force
    obtain ⟨hok, rfl⟩ := Prod.mk.inj (exec_ok hx)
    exact sync_current (Prod.ext hok rfl)
  shown_batch o ports a w w' x _ hw := by cases hw
  shown_tables _ _ := rfl
  shown_locks _ _ := rfl

end Part

section Runs

/-- From a quiet state in which `current` has the files of the table: along every run without a
restart, whatever steps fail and however the calls of the tasks and the statements of administrators
are mixed, `current` has the files of the table again whenever all is quiet and no event is left. -/
theorem bird_converges (ids : Identified w.toTables)
    (before : Reaches (step cfg) (fun _ _ => True) (System.stopped w) s) (quiet₀ : s.quiet)
    (current₀ : s.world.bird.current = some (rendering cfg.localAsn s.world.peers))
    (run : Reaches (step cfg) (fun _ l => l ≠ .restart) s s')
    (quiet : s'.quiet) (empty : s'.world.events = []) :
    s'.world.bird.current = some (rendering cfg.localAsn s'.world.peers) := by
  have ids₀ := identified_reaches ids before
  have ids' := identified_reaches ids (before.trans (run.mono fun _ _ _ => trivial))
  have timely : ∀ u l, Timely (birdFiles cfg) u l := fun u l => by
    cases l with
    | task i o =>
      intro ports next x _ hx
      cases hx
    | _ => trivial
  have start : s.world.bird.current = (desiredGeneration cfg.localAsn s.world.peers).toOption := by
    rw [current₀, desiredGeneration_table ids₀]
    rfl
  have shown : s'.world.bird.current = (desiredGeneration cfg.localAsn s'.world.peers).toOption :=
    converges (U := birdFiles cfg) ids before quiet₀ start (run.mono fun u l hl => ⟨hl, timely u l⟩)
      quiet empty
  rw [shown, desiredGeneration_table ids']
  rfl

end Runs

section Sample
open OperationEffects FirewallConvergence

/-- Are the files those of the table? -/
def filesInstalled (s : System) : Bool :=
  s.world.bird.current = some (rendering sampleConfig.localAsn s.world.peers)

/-- An update has listed the peers when a create begins and ends, and then installs its list: the file of
the new peer is gone until the listener comes to the events. -/
theorem bird_converges_sample : ∃ t u : System,
    t.world.bird.current ≠ some (rendering sampleConfig.localAsn t.world.peers) ∧
    Reaches (step sampleConfig) (fun _ l => l ≠ .restart) t u ∧ u.quiet ∧ u.world.events = [] ∧
    u.world.bird.current = some (rendering sampleConfig.localAsn u.world.peers) := by
  have ends : ((steps (step sampleConfig) recoverySteps
      (System.stopped servedWorld)).bind fun s => (settledOn filesInstalled s).bind fun a =>
        (steps (step sampleConfig) (.start (DisabledPeer.sampleUpdate "a") :: runs 1 7 ++
          .start sampleCreate :: runs 2 20 ++ runs 1 5) s).bind fun t =>
        (settledOn filesInstalled t).bind fun b =>
          (steps (step sampleConfig) (.start .syncPendingPeerChanges :: runs 3 76) t).map fun u =>
            (a, b, settledOn filesInstalled u)) = some ((true, false), (false, false), some (true, true)) := by
    decide +kernel
  obtain ⟨s, hs, ends⟩ := Option.bind_eq_some_iff.mp ends
  obtain ⟨a, ha, ends⟩ := Option.bind_eq_some_iff.mp ends
  obtain ⟨t, ht, ends⟩ := Option.bind_eq_some_iff.mp ends
  obtain ⟨b, hb, ends⟩ := Option.bind_eq_some_iff.mp ends
  obtain ⟨u, hu, ends⟩ := Option.map_eq_some_iff.mp ends
  simp only [Prod.mk.injEq] at ends
  obtain ⟨rfl, rfl, hu'⟩ := ends
  obtain ⟨quiet₀, current₀, -⟩ := settledOn_some ha
  obtain ⟨-, stale, -⟩ := settledOn_some hb
  obtain ⟨quiet, -, empty⟩ := settledOn_some hu'
  have before := steps_reaches (Schedule.of_forall fun _ _ _ => trivial) hs
  have middle : Reaches (step sampleConfig) (fun _ l => l ≠ .restart) s t :=
    steps_reaches (Schedule.of_forall fun l hl _ hr => by simp [runs, hr] at hl) ht
  have last : Reaches (step sampleConfig) (fun _ l => l ≠ .restart) t u :=
    steps_reaches (Schedule.of_forall fun l hl _ hr => by simp [runs, hr] at hl) hu
  exact ⟨t, u, of_decide_eq_false stale, last, quiet, empty.mpr rfl,
    bird_converges servedWorld_identified before quiet₀ (of_decide_eq_true current₀) (middle.trans last) quiet
      (empty.mpr rfl)⟩

end Sample

end Autopeer.BirdConvergence
