import Autopeer.BirdCallRefinement
import Autopeer.ManagerSystem

/-! When an Ok from a sync of the BIRD files means that BIRD runs them. -/
namespace Autopeer.BirdReload
open PeerData BirdGeneration TransitionRuns ManagerWorld ManagerSystem BirdFiles BirdFilesSteps
open BirdRefinement BirdCallRefinement ProgramRuns

/-- One call, with what it meets. -/
structure SyncCall where
  peers : List Peer
  forceReload : Bool
  faults : Faults

variable {localAsn : UInt32} {s t : BirdRoot} {c : SyncCall}

def SyncCall.run (localAsn : UInt32) (c : SyncCall) : Disk Unit :=
  syncBirdConfigsFor localAsn c.faults c.peers c.forceReload

/-- The calls follow each other, as the lock makes them. -/
def step (localAsn : UInt32) (c : SyncCall) (s : BirdRoot) : Option BirdRoot :=
  some (c.run localAsn s).2

/-- If the call returns Ok, its files are under `current` and BIRD has loaded them. -/
def OkMeansLoaded (localAsn : UInt32) (c : SyncCall) (s : BirdRoot) : Prop :=
  (c.run localAsn s).1 = .ok () →
    (c.run localAsn s).2.content = rendering localAsn c.peers ∧
      (c.run localAsn s).2.loaded = rendering localAsn c.peers

/-- The call replaces `current` and then fails without taking that back; or it removes the link, and
BIRD keeps what it had. -/
def LeavesBehind (localAsn : UInt32) (c : SyncCall) (s : BirdRoot) : Prop :=
  Installs localAsn c.faults c.peers s ∧ (Strands c.faults ∨ Drops c.faults ∧ s.loaded ≠ ∅)

section Abstract
variable {b b' : Bird} {peers : List Peer} {forceReload : Bool} {r : Except PeerError Unit}

lemma laidOut_current (b : Bird) : b.laidOut.current = some b.content := rfl

lemma sync_loaded (hb : b.loaded = b.content) (h : b.sync localAsn peers forceReload = (r, b')) :
    b'.loaded = b'.content ∧ (r = .ok () → b'.content = rendering localAsn peers) := by
  have laid : b.laidOut.loaded = b.laidOut.content := hb
  cases hd : desiredGeneration localAsn peers with
  | error e =>
    rw [Bird.sync, hd] at h
    cases h
    exact ⟨laid, fun hr => by cases hr⟩
  | ok desired =>
    obtain ⟨-, rfl⟩ := desiredGeneration_inv hd
    simp only [Bird.sync, hd, laidOut_current, Option.some.injEq] at h
    split at h
    · rename_i hm
      obtain ⟨-, rfl⟩ := Prod.mk.inj h
      cases forceReload
      · exact ⟨laid, fun _ => hm⟩
      · exact ⟨hm.symm, fun _ => hm⟩
    · obtain ⟨-, rfl⟩ := Prod.mk.inj h
      exact ⟨rfl, fun _ => rfl⟩

/-- After a failure BIRD is behind `current` in two cases. -/
lemma failed_loaded {failure : BirdFailure} (hb : b.loaded = b.content)
    (h : b.failed localAsn peers failure = some b') :
    b'.loaded = b'.content ↔
      ¬(failure = .stranded ∨ failure = .dropped false ∧ b.loaded ≠ ∅) := by
  have laid : b.laidOut.loaded = b.laidOut.content := hb
  cases hd : desiredGeneration localAsn peers with
  | error e =>
    cases failure with
    | early laidOut =>
      obtain rfl : (if laidOut then b.laidOut else b) = b' := by simpa [Bird.failed, hd] using h
      cases laidOut <;> simp [hb, laid]
    | _ => simp [Bird.failed, hd] at h
  | ok desired =>
    by_cases hm : b.content = desired
    · cases failure with
      | early laidOut =>
        obtain rfl : (if laidOut then b.laidOut else b) = b' := by simpa [Bird.failed, hd] using h
        cases laidOut <;> simp [hb, laid]
      | _ => simp [Bird.failed, hd, laidOut_current, hm] at h
    · cases failure with
      | early laidOut =>
        obtain rfl : (if laidOut then b.laidOut else b) = b' := by simpa [Bird.failed, hd] using h
        cases laidOut <;> simp [hb, laid]
      | stranded =>
        obtain rfl : { b with current := some desired } = b' := by
          simpa [Bird.failed, hd, laidOut_current, hm] using h
        simpa [Bird.content, hb] using hm
      | restored reloaded =>
        obtain rfl : (if reloaded then { b.laidOut with loaded := b.content } else b.laidOut) = b' := by
          simpa [Bird.failed, hd, laidOut_current, hm] using h
        cases reloaded
        · simp [laid]
        · simp [Bird.content, Bird.laidOut]
      | dropped reloaded =>
        obtain rfl : (⟨none, if reloaded then ∅ else b.loaded⟩ : Bird) = b' := by
          simpa [Bird.failed, hd, laidOut_current, hm] using h
        cases reloaded <;> simp [Bird.content]

end Abstract

section Call

/-- What a call leaves when BIRD runs the files under `current` before it. -/
structure Left (localAsn : UInt32) (c : SyncCall) (s s' : BirdRoot) : Prop where
  valid : Valid s'
  ok : (c.run localAsn s).1 = .ok () → s'.loaded = s'.content ∧ s'.content = rendering localAsn c.peers
  loaded : s'.loaded = s'.content ↔ ¬LeavesBehind localAsn c s
  renders : LeavesBehind localAsn c s → ∃ peers, NamesValid peers ∧ s'.content = rendering localAsn peers

theorem run_left (hv : Valid s) (hl : s.loaded = s.content) (c : SyncCall) :
    Left localAsn c s (c.run localAsn s).2 := by
  have hb : s.bird.loaded = s.bird.content := by
    rw [bird_content]
    exact hl
  obtain ⟨r, s', hrun, hv', hsync | ⟨e, failure, rfl, hfail, hstrands, hdrops⟩⟩ :=
    @sync_refines _ localAsn c.faults c.peers c.forceReload hv
  all_goals rw [SyncCall.run, hrun]
  · obtain ⟨hloaded, hcontent⟩ := sync_loaded hb hsync.1
    rw [bird_content] at hloaded hcontent
    have not : ¬LeavesBehind localAsn c s := fun h => hsync.2 ⟨h.1, h.2.imp_right And.left⟩
    refine ⟨hv', fun hr => ⟨hloaded, hcontent ?_⟩, iff_of_true hloaded not, fun h => absurd h not⟩
    simpa [SyncCall.run, hrun] using hr
  · have behind : LeavesBehind localAsn c s ↔
        failure = .stranded ∨ failure = .dropped false ∧ s.loaded ≠ ∅ := by
      rw [hstrands, hdrops, LeavesBehind]
      tauto
    refine ⟨hv', fun hr => ?_, ?_, fun h => ?_⟩
    · simp [SyncCall.run, hrun] at hr
    · rw [behind, ← bird_content (s := s')]
      exact failed_loaded hb hfail
    · have differs : s.bird.laidOut.current ≠ some (rendering localAsn c.peers) := by
        rw [laidOut_current, bird_content]
        simpa using h.1.differs
      have hd : desiredGeneration localAsn c.peers = .ok (rendering localAsn c.peers) :=
        desiredGeneration_ok h.1.names
      rw [← bird_content]
      rcases behind.mp h with rfl | ⟨rfl, -⟩
      · refine ⟨c.peers, h.1.names, ?_⟩
        obtain hs : _ = s'.bird := by simpa [Bird.failed, hd, differs] using hfail
        rw [← hs]
        rfl
      · refine ⟨[], fun p hp => by simp at hp, ?_⟩
        obtain hs : _ = s'.bird := by simpa [Bird.failed, hd, differs] using hfail
        rw [← hs]
        rfl

/-- Call by call too: an Ok means that BIRD runs the files of the call, if it ran those under
`current` before. -/
theorem calls_ok_loaded {P : BirdCalls.BirdCall → BirdCalls.BirdOutcome → Prop}
    {d d' : BirdCalls.BirdDisk} {pid : ℕ} {peers : List Peer} {forceReload : Bool}
    (plain : Plain (root d)) (hv : Valid (root d)) (hl : (root d).loaded = (root d).content)
    (run : Ends BirdCalls.exec P d
      (BirdCalls.syncBirdConfigsFor localAsn pid peers forceReload).run (.ok ()) d') :
    (root d').loaded = (root d').content ∧ (root d').content = rendering localAsn peers := by
  obtain ⟨f, hf⟩ := (simulates_syncBirdConfigsFor plain).ends run
  have ran : SyncCall.run localAsn ⟨peers, forceReload, f⟩ (root d) = (.ok (), root d') := hf
  have left := @run_left localAsn _ hv hl ⟨peers, forceReload, f⟩
  rw [ran] at left
  exact left.ok (by rw [ran])

/-- A call that finds its files under `current` does not look at what BIRD has loaded. -/
lemma unchanged_run {peers : List Peer} (suffix : ℕ) (hv : Valid s) (names : NamesValid peers)
    (hc : s.content = rendering localAsn peers) :
    SyncCall.run localAsn ⟨peers, false, noFaults suffix⟩ s = (.ok (), s.laidOut) := by
  have hd : desiredGeneration localAsn peers = .ok (rendering localAsn peers) :=
    desiredGeneration_ok names
  have content : s.laidOut.content = rendering localAsn peers := by
    rw [← bird_content, hv.laidOut_bird, laidOut_content, bird_content, hc]
  rcases ensureBirdLayout_cases (noFaults suffix) s with ⟨-, h⟩ | ⟨hlayout, -⟩
  · rw [SyncCall.run, syncBirdConfigsFor, bind_ok h, hd]
    refine (bind_ok (matches_eq hv.laidOut rfl rfl)).trans ?_
    simp only [content, decide_true, ↓reduceIte, Bool.false_eq_true]
    rfl
  · exact absurd ⟨rfl, rfl, fun _ => ⟨⟨rfl, rfl⟩, rfl⟩⟩ hlayout

end Call

section Runs

/-- Between the calls BIRD runs what is under `current`. -/
theorem Reaches.loaded (hv : Valid s) (hl : s.loaded = s.content)
    (h : Reaches (step localAsn) (fun s c => ¬LeavesBehind localAsn c s) s t) :
    Valid t ∧ t.loaded = t.content := by
  refine TransitionRuns.Reaches.invariant (J := fun u => Valid u ∧ u.loaded = u.content) h
    ⟨hv, hl⟩ fun u c v hu hc hs => ?_
  obtain rfl := Option.some.inj hs
  have left := @run_left localAsn _ hu.1 hu.2 c
  exact ⟨left.valid, left.loaded.mpr hc⟩

/-- While no call leaves BIRD behind `current`, Ok means that BIRD runs the files of the call; and a
call that does leave it behind can be followed by an Ok that does not mean it. -/
theorem ok_means_loaded (hv : Valid s) (hl : s.loaded = s.content)
    (h : Reaches (step localAsn) (fun s c => ¬LeavesBehind localAsn c s) s t) :
    (∀ c, OkMeansLoaded localAsn c t) ∧
      ∀ c, (∀ c', OkMeansLoaded localAsn c' (c.run localAsn t).2) ↔ ¬LeavesBehind localAsn c t := by
  have always : ∀ {u}, Valid u → u.loaded = u.content → ∀ c, OkMeansLoaded localAsn c u := by
    intro u hu hul c hr
    obtain ⟨hloaded, hcontent⟩ := (run_left hu hul c).ok hr
    exact ⟨hcontent, hloaded.trans hcontent⟩
  obtain ⟨ht, htl⟩ := Reaches.loaded hv hl h
  refine ⟨always ht htl, fun c => ⟨fun hall hbehind => ?_, fun hnot => ?_⟩⟩
  · have left : Left localAsn c t _ := run_left ht htl c
    obtain ⟨peers, names, hrender⟩ := left.renders hbehind
    have hrun := unchanged_run 0 left.valid names hrender
    have hok := hall ⟨peers, false, noFaults 0⟩ (by rw [hrun])
    rw [hrun] at hok
    refine left.loaded.mp ?_ hbehind
    exact hok.2.trans hrender.symm
  · have left : Left localAsn c t _ := run_left ht htl c
    exact always left.valid (left.loaded.mpr hnot)

end Runs

section Sample

def samplePeer : Peer :=
  { peerId := 1, peerName := "r1", ifaceName := "wgp1", asn := 4242421111, pubkey := ⟨"key"⟩,
    endpoint := none, localLlIp := ⟨0xfe80, 0, 0, 0, 0, 0, 0, 1⟩,
    remoteLlIp := ⟨0xfe80, 0, 0, 0, 0, 0, 0, 2⟩, status := .active, listenPort := 21111, mtu := 1420 }

/-- The state before the first start. -/
def freshRoot : BirdRoot :=
  ⟨fun path => if path = emptyPath then some ∅ else none, some emptyPath, ∅⟩

/-- The rename of `current` works, the sync of its directory does not. -/
def unsynced : SyncCall :=
  ⟨[samplePeer], false, { noFaults 0 with
    switch := ⟨none, none, some (.birdConfigIo "Input/output error (os error 5)" "/run/dn42-autopeer")⟩ }⟩

lemma freshRoot_valid : Valid freshRoot := ⟨by decide, by decide⟩

def retry : SyncCall := ⟨[samplePeer], false, noFaults 1⟩

/-- The retry of the call finds its files and answers Ok, though BIRD has loaded none of them. -/
theorem retry_not_loaded : Valid freshRoot ∧ freshRoot.loaded = freshRoot.content ∧
    ∃ t, Reaches (step 4242420000) (fun _ _ => True) freshRoot t ∧
      ¬OkMeansLoaded 4242420000 retry t := by
  refine ⟨freshRoot_valid, rfl, (unsynced.run 4242420000 freshRoot).2,
    Reaches.refl.tail unsynced trivial rfl, fun hok => ?_⟩
  have ended : (retry.run 4242420000 (unsynced.run 4242420000 freshRoot).2).1.isOk = true := by
    decide +kernel
  have old : (retry.run 4242420000 (unsynced.run 4242420000 freshRoot).2).2.loaded = ∅ := by
    decide +kernel
  have new : rendering 4242420000 retry.peers ≠ ∅ := by decide +kernel
  cases hr : (retry.run 4242420000 (unsynced.run 4242420000 freshRoot).2).1 with
  | error e => simp [hr, Except.isOk, Except.toBool] at ended
  | ok u => exact new ((hok hr).2.symm.trans old)

/-- With no fault at all the first call leaves BIRD on the new files, and later ones do so too. -/
theorem ok_means_loaded_fresh :
    ∃ t, Reaches (step 4242420000) (fun s c => ¬LeavesBehind 4242420000 c s) freshRoot t ∧
      t.current = some (generationPath 1) ∧ ∀ c, OkMeansLoaded 4242420000 c t := by
  have calm : ¬LeavesBehind 4242420000 retry freshRoot := by
    rintro ⟨-, h | h⟩
    · exact h.2.elim (fun hs => hs rfl) fun hr => hr.1 rfl
    · exact h.1.2.2.1 rfl
  have ran : Reaches (step 4242420000) (fun s c => ¬LeavesBehind 4242420000 c s) freshRoot
      (retry.run 4242420000 freshRoot).2 := Reaches.refl.tail retry calm rfl
  exact ⟨_, ran, by decide +kernel, (ok_means_loaded freshRoot_valid rfl ran).1⟩

end Sample

end Autopeer.BirdReload
