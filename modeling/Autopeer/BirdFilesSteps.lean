import Autopeer.BirdFiles

/-! What the parts of a sync of the BIRD files leave, whether they end well or not. -/
namespace Autopeer.BirdFilesSteps
open PeerData BirdGeneration ManagerWorld BirdFiles

variable {s s' : BirdRoot}

section Sequencing
variable {α β : Type} {x : Disk α} {g : α → Disk β}

lemma bind_ok {a : α} (h : x s = (.ok a, s')) : (x >>= g) s = g a s' := by
  change Disk.andThen x g s = _
  rw [Disk.andThen, h]

lemma bind_error {e : PeerError} (h : x s = (.error e, s')) : (x >>= g) s = (.error e, s') := by
  change Disk.andThen x g s = _
  rw [Disk.andThen, h]

end Sequencing

section Switch
variable {g : SwitchFaults} {target : String}

/-- No fault keeps the link from being replaced. -/
def Replaces (g : SwitchFaults) : Prop := g.symlink = none ∧ g.rename = none

/-- A switch that does not end well may have replaced the link. -/
theorem atomicSwitchCurrent_cases (g : SwitchFaults) (target : String) (s : BirdRoot) :
    (Replaces g ∧ g.syncDirectory = none ∧
        atomicSwitchCurrent g target s = (.ok (), s.linkTo target)) ∨
      (Replaces g ∧ g.syncDirectory ≠ none ∧
        ∃ e, atomicSwitchCurrent g target s = (.error e, s.linkTo target)) ∨
      ¬Replaces g ∧ ∃ e, atomicSwitchCurrent g target s = (.error e, s) := by
  obtain ⟨symlink, rename, syncDirectory⟩ := g
  cases symlink with
  | some e => exact .inr (.inr ⟨by simp [Replaces], e, bind_error rfl⟩)
  | none =>
    cases rename with
    | some e => exact .inr (.inr ⟨by simp [Replaces], e, (bind_ok rfl).trans (bind_error rfl)⟩)
    | none =>
      cases syncDirectory with
      | some e =>
        exact .inr (.inl ⟨⟨rfl, rfl⟩, by simp, e, (bind_ok rfl).trans ((bind_ok rfl).trans rfl)⟩)
      | none => exact .inl ⟨⟨rfl, rfl⟩, rfl, (bind_ok rfl).trans ((bind_ok rfl).trans rfl)⟩

end Switch

section Layout

/-- No fault keeps the layout from being there. -/
structure LayoutWorks (f : Faults) (s : BirdRoot) : Prop where
  createDirAll : f.createDirAll = none
  symlinkMetadata : f.symlinkMetadata = none
  layout : s.current = none → Replaces f.layout ∧ f.layout.syncDirectory = none

lemma ensureBirdLayout_rest {f : Faults} {s : BirdRoot} (hdir : f.createDirAll = none)
    (hmeta : f.symlinkMetadata = none) :
    ensureBirdLayout f s = match s.current with
      | some _ => (.ok (), s.withEmpty)
      | none => atomicSwitchCurrent f.layout emptyPath s.withEmpty := by
  rw [ensureBirdLayout, hdir, hmeta]
  exact (bind_ok rfl).trans (bind_ok rfl)

theorem ensureBirdLayout_cases (f : Faults) (s : BirdRoot) :
    (LayoutWorks f s ∧ ensureBirdLayout f s = (.ok (), s.laidOut)) ∨
      ¬LayoutWorks f s ∧ ∃ e s', ensureBirdLayout f s = (.error e, s') ∧
        (s' = s ∨ s' = s.withEmpty ∨ s' = s.laidOut) := by
  cases hdir : f.createDirAll with
  | some e =>
    refine .inr ⟨fun h => ?_, e, s, ?_, .inl rfl⟩
    · rw [h.createDirAll] at hdir
      cases hdir
    · rw [ensureBirdLayout, hdir]
      exact bind_error rfl
  | none =>
    cases hmeta : f.symlinkMetadata with
    | some e =>
      refine .inr ⟨fun h => ?_, e, s.withEmpty, ?_, .inr (.inl rfl)⟩
      · rw [h.symlinkMetadata] at hmeta
        cases hmeta
      · rw [ensureBirdLayout, hdir, hmeta]
        exact (bind_ok rfl).trans (bind_error rfl)
    | none =>
      have rest := @ensureBirdLayout_rest f s hdir hmeta
      cases hc : s.current with
      | some target =>
        refine .inl ⟨⟨hdir, hmeta, by simp [hc]⟩, ?_⟩
        rw [rest, hc]
        simp only [BirdRoot.laidOut, hc, Option.getD_some]
        rw [← hc]
        rfl
      | none =>
        have laid : s.withEmpty.linkTo emptyPath = s.laidOut := by
          simp only [BirdRoot.laidOut, BirdRoot.linkTo, hc, Option.getD_none]
        rw [rest, hc]
        rcases atomicSwitchCurrent_cases f.layout emptyPath s.withEmpty with
          ⟨hr, hs, h⟩ | ⟨hr, hs, e, h⟩ | ⟨hr, e, h⟩
        · exact .inl ⟨⟨hdir, hmeta, fun _ => ⟨hr, hs⟩⟩, by rw [← laid]; exact h⟩
        · exact .inr ⟨fun hw => hs (hw.layout hc).2, e, _, h, .inr (.inr laid)⟩
        · exact .inr ⟨fun hw => hr (hw.layout hc).1, e, _, h, .inr (.inl rfl)⟩

end Layout

section Prepare

lemma writeFiles_cases (fault : String → Option PeerError) (path : String)
    (files : List (String × String)) (g : Generation) :
    ((∀ file ∈ files, fault file.1 = none) ∧
        writeFiles fault path files (s.withFiles path g) =
          (.ok (), s.withFiles path (g.insertMany files))) ∨
      ¬(∀ file ∈ files, fault file.1 = none) ∧
        ∃ e g', writeFiles fault path files (s.withFiles path g) =
          (.error e, s.withFiles path g') := by
  induction files generalizing g with
  | nil => exact .inl ⟨by simp, rfl⟩
  | cons file files ih =>
    obtain ⟨name, content⟩ := file
    cases hfault : fault name with
    | some e =>
      refine .inr ⟨fun h => ?_, e, g, ?_⟩
      · have := h _ List.mem_cons_self
        simp [hfault] at this
      · rw [writeFiles, hfault]
        exact bind_error rfl
    | none =>
      have one : writeAtomic none path name content (s.withFiles path g) =
          (.ok (), s.withFiles path (g.insert name content)) := by
        simp [writeAtomic, attemptStep, BirdRoot.withFiles, BirdRoot.at]
      rw [writeFiles, hfault, bind_ok one]
      have all : (∀ file ∈ (name, content) :: files, fault file.1 = none) ↔
          ∀ file ∈ files, fault file.1 = none := by
        simp [hfault]
      rw [all, Std.ExtTreeMap.insertMany_cons]
      exact ih _

/-- No fault keeps the new generation from being complete. -/
structure PrepareWorks (f : Faults) (s : BirdRoot) (desired : Generation) : Prop where
  fresh : s.directories (generationPath f.suffix) = none
  createDir : f.createDir = none
  writeAtomic : ∀ file ∈ desired.toList, f.writeAtomic file.1 = none
  syncDirectory : f.syncDirectory = none

lemma insertMany_toList (g : Generation) : (∅ : Generation).insertMany g.toList = g := by
  apply Std.ExtTreeMap.ext_getElem?
  intro name
  cases h : g[name]? with
  | some content =>
    exact Std.ExtTreeMap.getElem?_insertMany_list_of_mem (by simp) Std.ExtTreeMap.distinct_keys_toList
      (Std.ExtTreeMap.mem_toList_iff_getElem?_eq_some.mpr h)
  | none =>
    rw [Std.ExtTreeMap.getElem?_insertMany_list_of_contains_eq_false]
    · simp
    · rw [Bool.eq_false_iff]
      intro hc
      obtain ⟨⟨name', content⟩, hm, rfl⟩ := List.mem_map.mp (List.contains_iff_mem.mp hc)
      rw [Std.ExtTreeMap.mem_toList_iff_getElem?_eq_some, h] at hm
      cases hm

/-- Before `current` is touched only the directory of the new generation changes. -/
theorem prepareGeneration_cases (f : Faults) (s : BirdRoot) (desired : Generation) :
    (PrepareWorks f s desired ∧ prepareGeneration f desired s =
        (.ok (), s.withFiles (generationPath f.suffix) desired)) ∨
      ¬PrepareWorks f s desired ∧ ∃ e s', prepareGeneration f desired s = (.error e, s') ∧
        (s' = s ∨ s.directories (generationPath f.suffix) = none ∧
          ∃ g, s' = s.withFiles (generationPath f.suffix) g) := by
  cases hdir : f.createDir with
  | some e =>
    refine .inr ⟨fun h => ?_, e, s, ?_, .inl rfl⟩
    · rw [h.createDir] at hdir
      cases hdir
    · refine bind_error ?_
      rw [hdir]
      rfl
  | none =>
    cases hfresh : s.directories (generationPath f.suffix) with
    | some g =>
      refine .inr ⟨fun h => ?_, .birdConfigIo "File exists (os error 17)" (generationPath f.suffix),
        s, ?_, .inl rfl⟩
      · rw [h.fresh] at hfresh
        cases hfresh
      · refine bind_error ?_
        rw [hdir]
        simp [createDir, hfresh]
    | none =>
      have made : createDir f.createDir (generationPath f.suffix) s =
          (.ok (), s.withFiles (generationPath f.suffix) ∅) := by
        rw [hdir]
        simp [createDir, hfresh]
      rw [prepareGeneration, bind_ok made]
      rcases writeFiles_cases (s := s) f.writeAtomic (generationPath f.suffix) desired.toList ∅ with
        ⟨hall, hw⟩ | ⟨hnot, e, g, hw⟩
      · rw [insertMany_toList] at hw
        rw [bind_ok hw]
        cases hsync : f.syncDirectory with
        | some e =>
          refine .inr ⟨fun h => ?_, e, _, rfl, .inr ⟨rfl, desired, rfl⟩⟩
          rw [h.syncDirectory] at hsync
          cases hsync
        | none => exact .inl ⟨⟨hfresh, hdir, hall, hsync⟩, rfl⟩
      · exact .inr ⟨fun h => hnot h.writeAtomic, e, _, bind_error hw, .inr ⟨rfl, g, rfl⟩⟩

end Prepare

section Install

/-- The link is on the new generation, and nothing takes it back. -/
def Strands (f : Faults) : Prop :=
  Replaces f.switch ∧ (f.switch.syncDirectory ≠ none ∨
    f.reload ≠ none ∧ (f.readLink = true → f.removeFile ≠ none) ∧
      (f.readLink = false → ¬Replaces f.restore))

/-- The link is gone, and BIRD has not noticed. -/
def Drops (f : Faults) : Prop :=
  Replaces f.switch ∧ f.switch.syncDirectory = none ∧ f.reload ≠ none ∧ f.readLink = true ∧
    f.removeFile = none ∧ f.reloadAgain ≠ none

/-- What each way to fail leaves, with the new generation under the path. -/
def after (s : BirdRoot) (path : String) : BirdFailure → BirdRoot
  | .early _ => s
  | .stranded => s.linkTo path
  | .restored reloaded => if reloaded then s.load else s
  | .dropped reloaded => if reloaded then s.unlink.load else s.unlink

lemma reloadBird_cases (fault : Option PeerError) (s : BirdRoot) :
    (fault = none ∧ reloadBird fault s = (.ok (), s.load)) ∨
      ∃ e, fault = some e ∧ reloadBird fault s = (.error e, s) := by
  cases fault with
  | none => exact .inl ⟨rfl, rfl⟩
  | some e => exact .inr ⟨e, rfl, rfl⟩

section Continuing
variable {f : Faults} {oldTarget : Option String} {reloadError restoreError : PeerError}

lemma rollBack_error (h : restoreCurrent f oldTarget s = (.error restoreError, s')) :
    rollBack f oldTarget reloadError s = (.error (restoreFailed reloadError restoreError), s') := by
  unfold rollBack
  rw [h]

lemma rollBack_ok (h : restoreCurrent f oldTarget s = (.ok (), s')) :
    rollBack f oldTarget reloadError s = (.error reloadError, (reloadBird f.reloadAgain s').2) := by
  unfold rollBack
  rw [h]

lemma reloadOrRollBack_error (h : reloadBird f.reload s = (.error reloadError, s')) :
    reloadOrRollBack f oldTarget s = rollBack f oldTarget reloadError s' := by
  unfold reloadOrRollBack
  rw [h]

lemma reloadOrRollBack_ok (h : reloadBird f.reload s = (.ok (), s')) :
    reloadOrRollBack f oldTarget s = removeOldGenerations f (generationName f.suffix) s' := by
  unfold reloadOrRollBack
  rw [h]

end Continuing

lemma rollBack_cases (path : String) (f : Faults) {target : String} (e : PeerError) (hc : s.current = some target) :
    ∃ e' failure,
      rollBack f (if f.readLink then none else s.current) e (s.linkTo path) =
          (.error e', after s path failure) ∧
        (failure = .stranded ↔ (f.readLink = true → f.removeFile ≠ none) ∧
          (f.readLink = false → ¬Replaces f.restore)) ∧
        (failure = .dropped false ↔
          f.readLink = true ∧ f.removeFile = none ∧ f.reloadAgain ≠ none) := by
  cases hread : f.readLink with
  | true =>
    cases hremove : f.removeFile with
    | some e' =>
      refine ⟨restoreFailed e e', .stranded, ?_, by simp, by simp⟩
      simp [rollBack, restoreCurrent, BirdRoot.linkTo, hremove, attemptStep, after]
    | none =>
      have removed : restoreCurrent f none (s.linkTo path) = (.ok (), s.unlink) := by
        simp [restoreCurrent, BirdRoot.linkTo, BirdRoot.unlink, hremove, attemptStep]
      rcases reloadBird_cases f.reloadAgain s.unlink with ⟨hagain, h⟩ | ⟨e', hagain, h⟩
      · refine ⟨e, .dropped true, ?_, by simp, by simp [hagain]⟩
        simp [rollBack, removed, h, after]
      · refine ⟨e, .dropped false, ?_, by simp, by simp [hagain]⟩
        simp [rollBack, removed, h, after]
  | false =>
    have back : (s.linkTo path).linkTo target = s := by
      simp only [BirdRoot.linkTo, ← hc]
    rcases atomicSwitchCurrent_cases f.restore target (s.linkTo path) with
      ⟨hr, -, h⟩ | ⟨hr, -, e', h⟩ | ⟨hr, e', h⟩
    · rw [back] at h
      rcases reloadBird_cases f.reloadAgain s with ⟨hagain, h'⟩ | ⟨e', hagain, h'⟩
      · refine ⟨e, .restored true, ?_, by simp [hr], by simp⟩
        simp [rollBack, restoreCurrent, hc, h, h', after]
      · refine ⟨e, .restored false, ?_, by simp [hr], by simp⟩
        simp [rollBack, restoreCurrent, hc, h, h', after]
    · rw [back] at h
      refine ⟨restoreFailed e e', .restored false, ?_, by simp [hr], by simp⟩
      simp [rollBack, restoreCurrent, hc, h, after]
    · refine ⟨restoreFailed e e', .stranded, ?_, by simp [hr], by simp⟩
      simp [rollBack, restoreCurrent, hc, h, after]

theorem installGeneration_cases (f : Faults) {target : String} (hc : s.current = some target) :
    (¬Strands f ∧ ¬Drops f ∧ installGeneration f s =
        (.ok (), ((s.linkTo (generationPath f.suffix)).load).withoutOld f.leftover
          (generationName f.suffix))) ∨
      ∃ e failure, installGeneration f s =
          (.error e, after s (generationPath f.suffix) failure) ∧
        (failure = .stranded ↔ Strands f) ∧ (failure = .dropped false ↔ Drops f) := by
  have link : readLink f s = (.ok (if f.readLink then none else s.current), s) := rfl
  rcases atomicSwitchCurrent_cases f.switch (generationPath f.suffix) s with
    ⟨hr, hsync, h⟩ | ⟨hr, hsync, e, h⟩ | ⟨hr, e, h⟩
  · have rest := (bind_ok (g := fun oldTarget => atomicSwitchCurrent f.switch
      (generationPath f.suffix) >>= fun _ => reloadOrRollBack f oldTarget) link).trans (bind_ok h)
    rcases reloadBird_cases f.reload (s.linkTo (generationPath f.suffix)) with
      ⟨hreload, h'⟩ | ⟨e, hreload, h'⟩
    · refine .inl ⟨by simp [Strands, hsync, hreload], by simp [Drops, hreload], rest.trans ?_⟩
      rw [reloadOrRollBack, h']
      rfl
    · obtain ⟨e', failure, hback, hs, hd⟩ := rollBack_cases (generationPath f.suffix) f e hc
      refine .inr ⟨e', failure, rest.trans ?_, ?_, ?_⟩
      · rw [reloadOrRollBack, h']
        exact hback
      · rw [hs]
        simp [Strands, hr, hsync, hreload]
      · rw [hd]
        simp [Drops, hr, hsync, hreload]
  · refine .inr ⟨e, .stranded, (bind_ok link).trans (bind_error h), ?_, ?_⟩
    · simp [Strands, hr, hsync]
    · simp [Drops, hsync]
  · refine .inr ⟨e, .early true, (bind_ok link).trans (bind_error h), ?_, ?_⟩
    · simp [Strands, hr]
    · simp [Drops, hr]

end Install

end Autopeer.BirdFilesSteps
