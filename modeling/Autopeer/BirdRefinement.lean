import Autopeer.BirdFilesSteps

/-! The steps on the files refine the sync that the other functions of the manager see: each call
leaves what `Bird.sync` leaves, or what one of the failures of `Bird.failed` leaves. -/
namespace Autopeer.BirdRefinement
open PeerData BirdGeneration ManagerWorld BirdFiles BirdFilesSteps

variable {f : Faults} {s : BirdRoot} {desired : Generation} {target path : String}

section Layout

/-- The layout is sound: `current` is no dangling link, and the empty generation is empty. -/
structure Valid (s : BirdRoot) : Prop where
  linked : ∀ target, s.current = some target → (s.directories target).isSome
  empty : s.at (some emptyPath) = ∅

@[simp] lemma bird_content : s.bird.content = s.content := by
  obtain ⟨directories, current, loaded⟩ := s
  cases current <;> rfl

lemma Valid.current_directory (hv : Valid s) (hc : s.current = some target) :
    s.current.bind s.directories = some s.content := by
  obtain ⟨g, hg⟩ := Option.isSome_iff_exists.mp (hv.linked target hc)
  simp [BirdRoot.content, BirdRoot.at, hc, hg]

lemma at_withFiles : (s.withFiles path desired).at (some target) =
    if target = path then desired else s.at (some target) := by
  by_cases h : target = path <;> simp [BirdRoot.withFiles, BirdRoot.at, Function.update_apply, h]

lemma Valid.withEmpty (hv : Valid s) : Valid s.withEmpty where
  linked := fun t ht => by
    by_cases h : t = emptyPath
    · simp [BirdRoot.withEmpty, BirdRoot.withFiles, h]
    · simpa [BirdRoot.withEmpty, BirdRoot.withFiles, h] using hv.linked t ht
  empty := by
    rw [BirdRoot.withEmpty, at_withFiles, if_pos rfl]
    exact hv.empty

lemma withEmpty_at : s.withEmpty.at (some target) = s.at (some target) := by
  rw [BirdRoot.withEmpty, at_withFiles]
  split
  · rename_i h
    rw [h]
  · rfl

lemma withEmpty_bird : s.withEmpty.bird = s.bird := by
  have current : s.withEmpty.current = s.current := rfl
  simp only [BirdRoot.bird, withEmpty_at, current]
  rfl

lemma Valid.laidOut (hv : Valid s) : Valid s.laidOut where
  linked := fun t ht => by
    cases hc : s.current with
    | some u =>
      refine hv.withEmpty.linked t ?_
      rw [← ht, BirdRoot.laidOut, hc]
      exact hc
    | none =>
      obtain rfl : emptyPath = t := by simpa [BirdRoot.laidOut, hc] using ht
      simp [BirdRoot.laidOut, BirdRoot.withEmpty, BirdRoot.withFiles]
  empty := hv.withEmpty.empty

lemma laidOut_at : s.laidOut.at (some target) = s.at (some target) := withEmpty_at

lemma Valid.laidOut_bird (hv : Valid s) : s.laidOut.bird = s.bird.laidOut := by
  cases hc : s.current with
  | some u =>
    simp only [BirdRoot.bird, laidOut_at, Bird.laidOut]
    simp [BirdRoot.laidOut, hc, BirdRoot.withEmpty, BirdRoot.withFiles]
  | none =>
    simp only [BirdRoot.bird, laidOut_at, Bird.laidOut]
    simp [BirdRoot.laidOut, hc, BirdRoot.withEmpty, BirdRoot.withFiles, hv.empty]

lemma laidOut_content (b : Bird) : b.laidOut.content = b.content := by
  obtain ⟨current, loaded⟩ := b
  cases current <;> rfl

end Layout

section Generation

lemma generationPath_ne_empty (suffix : ℕ) : generationPath suffix ≠ emptyPath := by
  intro h
  have chars := congrArg String.toList h
  simp [generationPath, generationName, emptyPath] at chars

/-- The directory of the new generation is not in use yet. -/
lemma Valid.withFiles (hv : Valid s) (desired : Generation) (hfresh : s.directories path = none) (hp : path ≠ emptyPath) :
    Valid (s.withFiles path desired) ∧ (s.withFiles path desired).bird = s.bird := by
  have other : ∀ t, s.current = some t → t ≠ path := by
    rintro t ht rfl
    have := hv.linked t ht
    simp [hfresh] at this
  refine ⟨⟨fun t ht => ?_, ?_⟩, ?_⟩
  · have hne := other t ht
    simpa [BirdRoot.withFiles, Function.update_of_ne hne] using hv.linked t ht
  · rw [at_withFiles, if_neg hp.symm]
    exact hv.empty
  · cases hc : s.current with
    | none => simp [BirdRoot.bird, BirdRoot.withFiles, hc]
    | some t =>
      have current : (s.withFiles path desired).current = some t := hc
      simp only [BirdRoot.bird, current, hc, Option.map_some, at_withFiles, if_neg (other t hc)]
      rfl

lemma Valid.linkTo (hv : Valid s) (hp : s.directories path = some desired) :
    Valid (s.linkTo path) ∧ (s.linkTo path).bird = ⟨some desired, s.loaded⟩ := by
  refine ⟨⟨fun t ht => ?_, hv.empty⟩, ?_⟩
  · obtain rfl : path = t := by simpa [BirdRoot.linkTo] using ht
    exact Option.isSome_iff_exists.mpr ⟨desired, hp⟩
  · simp [BirdRoot.bird, BirdRoot.linkTo, BirdRoot.at, hp]

lemma Valid.withoutOld (hv : Valid s) (leftover : String → Option Generation) {name : String}
    (hc : s.current = some ("generations/" ++ name)) :
    Valid (s.withoutOld leftover name) ∧ (s.withoutOld leftover name).bird = s.bird := by
  have kept : (s.withoutOld leftover name).directories ("generations/" ++ name) =
      s.directories ("generations/" ++ name) := by
    simp [BirdRoot.withoutOld]
  have keptEmpty : (s.withoutOld leftover name).directories emptyPath = s.directories emptyPath := by
    have : emptyPath.startsWith "generations/generation-" = false := by decide +kernel
    simp only [BirdRoot.withoutOld, this, Bool.false_and, Bool.false_eq_true, ↓reduceIte]
  have current : (s.withoutOld leftover name).current = s.current := rfl
  refine ⟨⟨fun t ht => ?_, ?_⟩, ?_⟩
  · obtain rfl : "generations/" ++ name = t := by simpa [current, hc] using ht
    rw [kept]
    exact hv.linked _ hc
  · have := hv.empty
    simp only [BirdRoot.at, Option.bind_some, keptEmpty] at this ⊢
    exact this
  · simp only [BirdRoot.bird, current, hc, Option.map_some, BirdRoot.at, Option.bind_some, kept]
    rfl

/-- A way to fail leaves the same in both models. -/
lemma after_bird {localAsn : UInt32} {peers : List Peer} {b : Bird} {failure : BirdFailure}
    (hv : Valid s) (hs : s.bird = b.laidOut) (hp : s.directories path = some desired)
    (hd : desiredGeneration localAsn peers = .ok desired) (hne : b.laidOut.current ≠ some desired) :
    Valid (after s path failure) ∧
      ∃ failure', (failure' = .stranded ↔ failure = .stranded) ∧
        (failure' = .dropped false ↔ failure = .dropped false) ∧
        b.failed localAsn peers failure' = some (after s path failure).bird := by
  have content : s.content = b.content := by
    rw [← bird_content, hs, laidOut_content]
  have loaded : s.loaded = b.loaded := congrArg Bird.loaded hs
  cases failure with
  | early laidOut => exact ⟨hv, .early true, by simp, by simp, by simp [Bird.failed, after, hs]⟩
  | stranded =>
    obtain ⟨hv', hb⟩ := hv.linkTo hp
    refine ⟨hv', .stranded, by simp, by simp, ?_⟩
    simp [Bird.failed, hd, hne, after, hb, loaded]
  | restored reloaded =>
    cases reloaded with
    | false =>
      refine ⟨hv, .restored false, by simp, by simp, ?_⟩
      simp [Bird.failed, hd, hne, after, hs]
    | true =>
      refine ⟨⟨hv.linked, hv.empty⟩, .restored true, by simp, by simp, ?_⟩
      have load : s.load.bird = { s.bird with loaded := s.content } := rfl
      simp [Bird.failed, hd, hne, after, load, hs, content]
  | dropped reloaded =>
    cases reloaded with
    | false =>
      refine ⟨⟨by simp [after, BirdRoot.unlink], hv.empty⟩, .dropped false, by simp, by simp, ?_⟩
      simp [Bird.failed, hd, hne, after, BirdRoot.unlink, BirdRoot.bird, loaded]
    | true =>
      refine ⟨⟨by simp [after, BirdRoot.unlink, BirdRoot.load], hv.empty⟩, .dropped true, by simp,
        by simp, ?_⟩
      simp [Bird.failed, hd, hne, after, BirdRoot.unlink, BirdRoot.load, BirdRoot.bird,
        BirdRoot.content, BirdRoot.at]

end Generation

section Sync
variable {localAsn : UInt32} {peers : List Peer} {forceReload : Bool}

/-- The call wants other files than it finds, and its new generation gets complete. -/
structure Installs (localAsn : UInt32) (f : Faults) (peers : List Peer) (s : BirdRoot) : Prop where
  layout : LayoutWorks f s
  names : NamesValid peers
  readGeneration : f.readGeneration = none
  differs : s.content ≠ rendering localAsn peers
  prepare : PrepareWorks f s.laidOut (rendering localAsn peers)

/-- An end of a call: the sync of the other model, or one of its failures. -/
def Refines (localAsn : UInt32) (f : Faults) (peers : List Peer) (forceReload : Bool)
    (s : BirdRoot) (r : Except PeerError Unit) (s' : BirdRoot) : Prop :=
  (s.bird.sync localAsn peers forceReload = (r, s'.bird) ∧
      ¬(Installs localAsn f peers s ∧ (Strands f ∨ Drops f))) ∨
    ∃ e failure, r = .error e ∧ s.bird.failed localAsn peers failure = some s'.bird ∧
      (failure = .stranded ↔ Installs localAsn f peers s ∧ Strands f) ∧
      (failure = .dropped false ↔ Installs localAsn f peers s ∧ Drops f)

/-- A call that gives up before it has a complete generation of its own. -/
lemma refines_early {e : PeerError} {s' : BirdRoot} (laidOut : Bool)
    (h : s'.bird = if laidOut then s.bird.laidOut else s.bird) (hn : ¬Installs localAsn f peers s) :
    Refines localAsn f peers forceReload s (.error e) s' := by
  refine .inr ⟨e, .early laidOut, rfl, ?_, by simp [hn], by simp [hn]⟩
  rw [Bird.failed, h]

lemma not_installs_of_match (h : s.content = rendering localAsn peers) :
    ¬Installs localAsn f peers s := fun hi => hi.differs h

/-- The part of a call after the layout, with the files it wants. -/
def syncDesired (f : Faults) (desired : Generation) (forceReload : Bool) : Disk Unit := do
  if ← currentGenerationMatches f desired then
    if forceReload then reloadBird f.reload else pure ()
  else do
    prepareGeneration f desired
    installGeneration f

lemma matches_eq (hu : Valid s) {target : String} (hc : s.current = some target)
    (hread : f.readGeneration = none) :
    currentGenerationMatches f desired s = (.ok (decide (s.content = desired)), s) := by
  simp [currentGenerationMatches, hread, hu.current_directory hc]

lemma load_bird : s.load.bird = { s.bird with loaded := s.content } := rfl

/-- The last part of a call, once its generation is complete. -/
lemma install_refines {u : BirdRoot} (forceReload : Bool) (hi : Installs localAsn f peers s)
    (hp : Valid (u.withFiles (generationPath f.suffix) (rendering localAsn peers)))
    (hb : (u.withFiles (generationPath f.suffix) (rendering localAsn peers)).bird = s.bird.laidOut)
    (hc : u.current = some target)
    (differs : s.bird.laidOut.current ≠ some (rendering localAsn peers)) :
    ∃ r s', installGeneration f
        (u.withFiles (generationPath f.suffix) (rendering localAsn peers)) = (r, s') ∧ Valid s' ∧
      Refines localAsn f peers forceReload s r s' := by
  have hd : desiredGeneration localAsn peers = .ok (rendering localAsn peers) :=
    desiredGeneration_ok hi.names
  have made : (u.withFiles (generationPath f.suffix) (rendering localAsn peers)).directories
      (generationPath f.suffix) = some (rendering localAsn peers) := by
    simp [BirdRoot.withFiles]
  rcases installGeneration_cases (s := u.withFiles (generationPath f.suffix)
    (rendering localAsn peers)) f hc with ⟨hs, hdrop, h⟩ | ⟨e, failure, h, hs, hdrop⟩
  · obtain ⟨hl, hlb⟩ := hp.linkTo made
    have loaded : Valid ((u.withFiles (generationPath f.suffix)
        (rendering localAsn peers)).linkTo (generationPath f.suffix)).load := ⟨hl.linked, hl.empty⟩
    obtain ⟨ho, hob⟩ := loaded.withoutOld f.leftover rfl
    refine ⟨.ok (), _, h, ho, .inl ⟨?_, fun hn => hn.2.elim hs hdrop⟩⟩
    rw [hob, load_bird, hlb, ← bird_content, hlb]
    simp [Bird.sync, hd, differs, Bird.content]
  · obtain ⟨ha, failure', hs', hdrop', hfail⟩ := after_bird hp hb made hd differs
    refine ⟨.error e, _, h, ha, .inr ⟨e, failure', rfl, hfail, ?_, ?_⟩⟩
    · rw [hs', hs]
      simp [hi]
    · rw [hdrop', hdrop]
      simp [hi]

theorem syncDesired_refines (forceReload : Bool) (hv : Valid s) (hlayout : LayoutWorks f s)
    (names : NamesValid peers) :
    ∃ r s', syncDesired f (rendering localAsn peers) forceReload s.laidOut = (r, s') ∧ Valid s' ∧
      Refines localAsn f peers forceReload s r s' := by
  have hu := hv.laidOut
  have hbird := hv.laidOut_bird
  have hd : desiredGeneration localAsn peers = .ok (rendering localAsn peers) :=
    desiredGeneration_ok names
  have hc : s.laidOut.current = some (s.current.getD emptyPath) := rfl
  have content : s.laidOut.content = s.content := by
    rw [← bird_content, hbird, laidOut_content, bird_content]
  have current : s.bird.laidOut.current = some s.content := by
    rw [Bird.laidOut, ← bird_content]
    rfl
  cases hread : f.readGeneration with
  | some e =>
    refine ⟨.error e, s.laidOut, bind_error ?_, hu, refines_early true hbird fun hi => ?_⟩
    · rw [currentGenerationMatches, hread]
    · rw [hi.readGeneration] at hread
      cases hread
  | none =>
    rw [syncDesired, bind_ok (matches_eq hu hc hread), content]
    by_cases hm : s.content = rendering localAsn peers
    · have hn := not_installs_of_match (f := f) hm
      have same : s.bird.laidOut.current = some (rendering localAsn peers) := by rw [current, hm]
      cases forceReload with
      | false =>
        refine ⟨.ok (), s.laidOut, by simp [hm]; rfl, hu, .inl ⟨?_, fun h => hn h.1⟩⟩
        simp [Bird.sync, hd, same, hbird]
      | true =>
        rcases reloadBird_cases f.reload s.laidOut with ⟨-, h⟩ | ⟨e, -, h⟩
        · refine ⟨.ok (), s.laidOut.load, by simp [hm, h], ⟨hu.linked, hu.empty⟩,
            .inl ⟨?_, fun h => hn h.1⟩⟩
          simp [Bird.sync, hd, same, load_bird, hbird, content, hm]
        · exact ⟨.error e, s.laidOut, by simp [hm, h], hu, refines_early true hbird hn⟩
    · have differs : s.bird.laidOut.current ≠ some (rendering localAsn peers) := by
        simpa [current] using hm
      rcases prepareGeneration_cases f s.laidOut (rendering localAsn peers) with
        ⟨hprepare, h⟩ | ⟨hprepare, e, s', h, hs'⟩
      · have hi : Installs localAsn f peers s := ⟨hlayout, names, hread, hm, hprepare⟩
        obtain ⟨hp, hb⟩ := hu.withFiles (rendering localAsn peers) hprepare.fresh
          (generationPath_ne_empty _)
        simp only [hm, decide_false, Bool.false_eq_true, ↓reduceIte]
        rw [bind_ok h]
        exact install_refines forceReload hi hp (hb.trans hbird) hc differs
      · have hn : ¬Installs localAsn f peers s := fun hi => hprepare hi.prepare
        have unchanged : Valid s' ∧ s'.bird = s.laidOut.bird := by
          rcases hs' with rfl | ⟨hfresh, g, rfl⟩
          · exact ⟨hu, rfl⟩
          · exact hu.withFiles g hfresh (generationPath_ne_empty _)
        refine ⟨.error e, s', ?_, unchanged.1, refines_early true (unchanged.2.trans hbird) hn⟩
        simp only [hm, decide_false, Bool.false_eq_true, ↓reduceIte]
        exact bind_error h

/-- A call that ends well does what the sync does. One that does not has failed in one of the known
ways; it leaves BIRD behind `current` in just two of them. -/
theorem sync_refines (f : Faults) (peers : List Peer) (forceReload : Bool) (hv : Valid s) :
    ∃ r s', syncBirdConfigsFor localAsn f peers forceReload s = (r, s') ∧ Valid s' ∧
      Refines localAsn f peers forceReload s r s' := by
  rcases ensureBirdLayout_cases f s with ⟨hlayout, h⟩ | ⟨hlayout, e, s', h, hs'⟩
  · rw [syncBirdConfigsFor, bind_ok h]
    cases hd : desiredGeneration localAsn peers with
    | error e =>
      refine ⟨.error e, s.laidOut, rfl, hv.laidOut, .inl ⟨?_, fun ⟨hi, _⟩ => ?_⟩⟩
      · rw [Bird.sync, hd, hv.laidOut_bird]
      · rw [desiredGeneration_ok hi.names] at hd
        cases hd
    | ok desired =>
      obtain ⟨names, rfl⟩ := desiredGeneration_inv hd
      exact syncDesired_refines forceReload hv hlayout names
  · have hn : ¬Installs localAsn f peers s := fun hi => hlayout hi.layout
    rcases hs' with rfl | rfl | rfl
    · exact ⟨.error e, _, bind_error h, hv, refines_early false rfl hn⟩
    · exact ⟨.error e, _, bind_error h, hv.withEmpty, refines_early false withEmpty_bird hn⟩
    · exact ⟨.error e, _, bind_error h, hv.laidOut, refines_early true hv.laidOut_bird hn⟩

end Sync

end Autopeer.BirdRefinement
