import Autopeer.BirdCallRefinement

/-! Writer and comparer agree: after a call that ended well `generation_matches` says yes, and
another call for the same enabled peers has nothing to do. -/
namespace Autopeer.BirdAgreement
open PeerData ProgramTree ProgramRuns RunFailures ProgramTriples BirdGeneration LinkPublication
open BirdCalls BirdTriples GenerationReading BirdCallRefinement
open LinkedDirectories hiding exec
open BirdFiles (BirdRoot emptyPath generationName generationPath)
open BirdFilesSteps (prepareGeneration_cases)
open CurrentLink (rendering_conf generationPath_ne_empty)

section Writer
variable {P : BirdCall → BirdOutcome → Prop} {d : BirdDisk} {s : BirdRoot} {desired : Generation}
  {pid suffix : ℕ}

/-- The directory has the wanted files, beside the empty generation. -/
def Filled (suffix : ℕ) (desired : Generation) (s : BirdRoot) : Prop :=
  s.directories (generationPath suffix) = some desired ∧ (s.directories emptyPath).isSome

lemma must_prepareGeneration (there : ((root d).directories emptyPath).isSome)
    (names : ∀ file ∈ desired.toList, file.1.endsWith ".conf" = true) :
    Must exec P (fun _ => True) (prepareGeneration pid (generationPath suffix) desired).run d
      (IfOk fun _ d' => Filled suffix desired (root d')) := by
  refine (simulates_prepareGeneration names).mono fun r d' ⟨f, hf⟩ => ?_
  cases r with
  | error error => trivial
  | ok _ =>
    rcases prepareGeneration_cases { f with suffix } (root d) desired with
      ⟨-, hs⟩ | ⟨-, error, u, hs, -⟩
    · obtain ⟨-, heq⟩ := Prod.mk.inj (hf.symm.trans hs)
      have hne : emptyPath ≠ generationPath suffix := (generationPath_ne_empty suffix).symm
      change Filled suffix desired (root d')
      rw [heq]
      exact ⟨by simp [BirdRoot.withFiles], by simpa [BirdRoot.withFiles, hne] using there⟩
    · cases (Prod.mk.inj (hf.symm.trans hs)).1

/-- `current` leads to these `.conf` files. -/
def Published (suffix : ℕ) (desired : Generation) (s : BirdRoot) : Prop :=
  s.current = some (generationPath suffix) ∧ Filled suffix desired s

/-- Neither the new generation nor the empty one goes. -/
lemma Published.cleared {d' : BirdDisk} (published : Published suffix desired (root d))
    (cleared : Cleared (generationName suffix) d d') : Published suffix desired (root d') := by
  obtain ⟨linked, filled, there⟩ := published
  have emptyStays : ¬Old (generationName suffix) emptyPath := fun old => by
    have young : emptyPath.startsWith "generations/generation-" = false := by decide +kernel
    rw [old.1] at young
    cases young
  have newStays : ¬Old (generationName suffix) (generationPath suffix) := fun old => old.2 rfl
  refine ⟨?_, ?_, ?_⟩
  · rw [root, cleared.links]
    exact linked
  · rw [root_directories, cleared.kept _ newStays]
    exact filled
  · rw [root_directories, cleared.kept _ emptyStays]
    exact there

/-- A rollback never ends well. -/
lemma must_rollBack {oldTarget : Option String} {reloadError : PeerError} {A : Unit → BirdDisk → Prop} :
    Must exec P (fun _ => True) (rollBack oldTarget reloadError).run d (IfOk A) := by
  apply Must.andThen (A := fun _ _ => True)
  · refine Must.mono must_trivial fun r _ _ => ?_
    cases r <;> trivial
  · intro r d _
    cases r with
    | error restoreError => trivial
    | ok _ =>
      apply Must.andThen (A := fun _ _ => True)
      · refine Must.mono must_trivial fun r _ _ => ?_
        cases r <;> trivial
      · exact fun _ _ _ => trivial

lemma must_installGeneration (filled : Filled suffix desired (root d)) :
    Must exec P (fun _ => True) (installGeneration suffix).run d
      (IfOk fun _ d' => Published suffix desired (root d')) := by
  apply Must.andThen (A := fun _ d' => Filled suffix desired (root d'))
  · refine must_rawCall trivial fun o r t _ hx => ?_
    rw [exec_looks rfl hx]
    exact filled
  intro oldTarget d filled
  apply Must.andThen (A := fun _ d' => Published suffix desired (root d'))
  · refine must_atomicSwitchCurrent.mono fun r d' ends => ?_
    obtain ⟨switched, linked⟩ := ends
    cases r with
    | error error => trivial
    | ok _ =>
      change Published suffix desired (root d')
      rw [Switched.root_linkTo switched (linked rfl)]
      exact ⟨rfl, filled⟩
  intro _ d published
  apply Must.andThen (A := fun _ d' => Published suffix desired (root d'))
  · refine Must.attempt (must_reloadBird trivial fun r d' same => ?_)
    change Published suffix desired (root d')
    rw [Published, Filled, root, same]
    exact published
  · intro result d published
    cases result with
    | error reloadError => exact must_rollBack
    | ok _ =>
      refine must_removeOldGenerations.mono fun r d' ends => ?_
      obtain ⟨hr, cleared⟩ := ends
      rw [hr]
      exact published.cleared cleared

/-- The layout is there, and a reader of `current` finds these `.conf` files. -/
def Settled (desired : Generation) (t : Tree) : Prop := HasLayout t ∧ Shows t "current" desired

lemma Published.settled (h : Published suffix desired (root d)) : Settled desired d.tree := by
  obtain ⟨linked, filled, there⟩ := h
  have linked : d.tree.links["current"]? = some (generationPath suffix) := linked
  rw [root_directories] at filled there
  obtain ⟨files, hfiles, hconf⟩ := Option.map_eq_some_iff.mp filled
  have resolved : d.tree.resolve "current" = some files := by
    simp only [Tree.resolve, linked]
    exact hfiles
  exact ⟨⟨by rw [linked]; rfl, by simpa using there⟩, (shows_iff resolved).mpr hconf⟩

/-- A call that ends well leaves what it wanted, whatever was there before. -/
theorem must_syncBirdConfigsFor {localAsn : UInt32} {peers : List Peer} {forceReload : Bool} :
    Must exec P (fun _ => True) (syncBirdConfigsFor localAsn pid peers forceReload).run d
      (IfOk fun _ d' => ∃ desired, desiredGeneration localAsn peers = .ok desired ∧
        Settled desired d'.tree) := by
  apply Must.andThen (A := fun _ d' => HasLayout d'.tree)
  · refine must_ensureBirdLayout.mono fun r d' ⟨_, layout⟩ => ?_
    cases r with
    | ok _ => exact layout rfl
    | error error => trivial
  intro _ d layout
  cases hd : desiredGeneration localAsn peers with
  | error error => trivial
  | ok desired =>
    apply Must.andThen (A := fun b d' => d' = d ∧ (b = true ↔ Shows d.tree "current" desired))
    · refine (must_generationMatches fun _ _ => trivial).mono fun r d' ⟨same, truth, _⟩ => ?_
      cases r with
      | ok b => exact ⟨same, truth b rfl⟩
      | error error => trivial
    rintro same d ⟨rfl, truth⟩
    cases same with
    | true =>
      have settled : Settled desired d.tree := ⟨layout, truth.mp rfl⟩
      cases forceReload with
      | false => exact ⟨desired, rfl, settled⟩
      | true =>
        refine must_reloadBird trivial fun r d' same => ?_
        cases r with
        | ok _ =>
          refine ⟨desired, rfl, ?_⟩
          rwa [same]
        | error error => trivial
    | false =>
      have names : ∀ file ∈ desired.toList, file.1.endsWith ".conf" = true := by
        obtain ⟨-, rfl⟩ := desiredGeneration_inv hd
        exact rendering_conf
      have there : ((root d).directories emptyPath).isSome := by
        rw [root_directories, Option.isSome_map]
        exact layout.2
      apply Must.andThen (A := fun _ d' => d' = d)
      · exact must_uniqueSuffix trivial fun _ => rfl
      rintro suffix _ rfl
      apply (must_prepareGeneration there names).andThen
      intro _ d filled
      refine (must_installGeneration filled).mono fun r d' published => ?_
      cases r with
      | ok _ => exact ⟨desired, rfl, Published.settled published⟩
      | error error => trivial

end Writer

section Later
variable {d : BirdDisk} {path : String} {desired : Generation} {pid : ℕ} {localAsn : UInt32}
  {peers peers' : List Peer}

/-- A step on the files that works. -/
def Works (_ : BirdCall) (o : BirdOutcome) : Prop := o.file.refused = none

/-- No generation is created, `current` is not switched and BIRD is not reloaded. -/
def Quiet : BirdCall → Prop
  | .file (.createDir _) | .file (.symlink ..) | .file (.renameLink ..) | .reloadBird => False
  | _ => True

lemma clean_works : Clean Works := fun _ _ h => h

lemma quiet_of_looks : ∀ e : Call, e.looks = true → Quiet (.file e) := by
  intro e hl
  cases e <;> trivial

lemma put_self {t : Tree} {dir : String} {files : Files} (h : t.directories[dir]? = some files) :
    t.put dir files = t := by
  have same : t.directories.insert dir files = t.directories := by
    apply Std.ExtTreeMap.ext_getElem?
    intro other
    rw [Std.ExtTreeMap.getElem?_insert]
    split
    · rename_i heq
      obtain rfl : dir = other := by simpa using heq
      exact h.symm
    · rfl
  rw [Tree.put, same]

/-- The comparison with what is there says yes. -/
lemma must_generationMatches_true (shows : Shows d.tree path desired) :
    Must exec Works Quiet (generationMatches path desired).run d fun r d' => r = .ok true ∧ d' = d := by
  refine (must_generationMatches quiet_of_looks).mono fun r d' ⟨same, truth, works⟩ => ?_
  obtain ⟨b, rfl⟩ := works clean_works ⟨desired, shows⟩
  exact ⟨congrArg Except.ok ((truth b rfl).mpr shows), same⟩

/-- On a directory of files it says whether the `.conf` files are those that are wanted. -/
lemma must_generationMatches_files {files : Files} (h : d.tree.resolve path = some files) :
    Must exec Works Quiet (generationMatches path desired).run d fun r d' =>
      r = .ok (decide (confFiles files = desired)) ∧ d' = d := by
  refine (must_generationMatches quiet_of_looks).mono fun r d' ⟨same, truth, works⟩ => ?_
  obtain ⟨b, rfl⟩ := works clean_works ⟨_, (shows_iff h).mpr rfl⟩
  have hb := truth b rfl
  rw [shows_iff h] at hb
  refine ⟨congrArg Except.ok ?_, same⟩
  rw [Bool.eq_iff_iff, hb, decide_eq_true_eq]

lemma must_ensureBirdLayout_there (layout : HasLayout d.tree) :
    Must exec Works Quiet ensureBirdLayout.run d fun r d' => r = .ok () ∧ d' = d := by
  obtain ⟨linked, there⟩ := layout
  obtain ⟨files, hfiles⟩ := Option.isSome_iff_exists.mp there
  apply Must.bind (A := fun r d' => r = .ok () ∧ d' = d)
  · refine must_fileCall trivial fun o r t ho hx => ?_
    rcases exec_cases hx with ⟨text, hr, -⟩ | ⟨-, hx⟩
    · cases hr.symm.trans ho
    · obtain ⟨rfl, rfl⟩ := Prod.mk.inj (Option.some.inj hx)
      rw [hfiles, Option.getD_some, put_self hfiles]
      exact ⟨rfl, rfl⟩
  · rintro _ v ⟨-, rfl⟩
    apply Must.bind (A := fun r d' => r = .ok (.ok ()) ∧ d' = v)
    · refine must_rawCall trivial fun o r t ho hx => ?_
      rcases exec_cases hx with ⟨text, hr, -⟩ | ⟨-, hx⟩
      · cases hr.symm.trans ho
      · simp only [perform, if_pos linked] at hx
        obtain ⟨rfl, rfl⟩ := Prod.mk.inj (Option.some.inj hx)
        exact ⟨rfl, rfl⟩
    · rintro r v' ⟨hr, rfl⟩
      obtain rfl := Except.ok.inj hr
      exact ⟨rfl, rfl⟩
    · rintro error v' ⟨hr, -⟩
      cases hr
  · rintro error v ⟨hr, -⟩
    cases hr

/-- A call that finds what it wants does nothing. -/
theorem must_syncBirdConfigsFor_settled (hd : desiredGeneration localAsn peers = .ok desired)
    (settled : Settled desired d.tree) :
    Must exec Works Quiet (syncBirdConfigsFor localAsn pid peers false).run d fun r d' =>
      r = .ok () ∧ d' = d := by
  obtain ⟨layout, shows⟩ := settled
  apply Must.bind (must_ensureBirdLayout_there layout)
  · rintro _ v ⟨-, rfl⟩
    simp only [hd]
    apply Must.bind (must_generationMatches_true shows)
    · rintro b v' ⟨hb, rfl⟩
      obtain rfl := Except.ok.inj hb
      exact ⟨rfl, rfl⟩
    · rintro error v' ⟨hr, -⟩
      cases hr
  · rintro error v ⟨hr, -⟩
    cases hr

/-- Every call can work, in some order of the directory that it reads. -/
lemma exists_works (e : BirdCall) (d : BirdDisk) :
    ∃ o r d', Works e o ∧ exec o e d = some (r, d') := by
  have answer : ∀ e : Call, ∃ o : Outcome, o.refused = none ∧ ∃ a, perform o e d.tree = some a := by
    intro e
    cases e with
    | readDir path =>
      obtain ⟨names, lists⟩ := exists_listing d.tree path
      refine ⟨⟨none, names, 0, "", []⟩, rfl, ?_⟩
      simp only [perform, if_pos lists]
      split <;> exact ⟨_, rfl⟩
    | _ =>
      refine ⟨⟨none, [], 0, "", []⟩, rfl, ?_⟩
      simp only [perform]
      first
        | exact ⟨_, rfl⟩
        | split <;> exact ⟨_, rfl⟩
  cases e with
  | file e =>
    obtain ⟨o, clean, ⟨r, t⟩, h⟩ := answer e
    refine ⟨⟨o, 0, none⟩, r, { d with tree := t }, clean, ?_⟩
    simp only [exec, LinkedDirectories.exec, clean, h]
    rfl
  | uniqueSuffix => exact ⟨⟨⟨none, [], 0, "", []⟩, 0, none⟩, 0, d, rfl, rfl⟩
  | reloadBird => exact ⟨⟨⟨none, [], 0, "", []⟩, 0, none⟩, .ok (), d.load, rfl, rfl⟩

/-- The same enabled peers. Their order counts only where two rows have one id, and no two rows of
the table do. -/
def SameEnabled (peers peers' : List Peer) : Prop :=
  peers'.filter Peer.enabled = peers.filter Peer.enabled ∨
    (peers'.filter Peer.enabled).Perm (peers.filter Peer.enabled) ∧
      (peers.filter Peer.enabled).Pairwise fun p q => p.peerId ≠ q.peerId

lemma namesDistinct_enabled (valid : NamesValid peers)
    (ids : (peers.filter Peer.enabled).Pairwise fun p q => p.peerId ≠ q.peerId) :
    NamesDistinct (peers.filter Peer.enabled) := by
  refine ids.imp_of_mem fun {p q} hp hq hne heq => hne ?_
  obtain ⟨hp, hpe⟩ := List.mem_filter.mp hp
  obtain ⟨hq, hqe⟩ := List.mem_filter.mp hq
  exact (confName_eq_iff (valid p hp hpe) (valid q hq hqe)).mp heq

lemma desiredGeneration_same (same : SameEnabled peers peers')
    (hd : desiredGeneration localAsn peers = .ok desired) :
    desiredGeneration localAsn peers' = .ok desired := by
  rcases same with heq | ⟨perm, ids⟩
  · rw [desiredGeneration, heq]
    exact hd
  · obtain ⟨valid, rfl⟩ := desiredGeneration_inv hd
    have hmem : ∀ p, p ∈ peers' ∧ p.enabled = true ↔ p ∈ peers ∧ p.enabled = true := by
      intro p
      rw [← List.mem_filter, ← List.mem_filter]
      exact perm.mem_iff
    have valid' : NamesValid peers' := fun p hp he =>
      valid p ((hmem p).mp ⟨hp, he⟩).1 he
    have ids' := perm.symm.pairwise ids fun h => h.symm
    rw [desiredGeneration_ok valid']
    refine congrArg Except.ok (rendering_congr (namesDistinct_enabled valid' ids')
      (namesDistinct_enabled valid ids) fun name content => ?_)
    constructor
    · rintro ⟨p, hp, he, h⟩
      exact ⟨p, ((hmem p).mp ⟨hp, he⟩).1, he, h⟩
    · rintro ⟨p, hp, he, h⟩
      exact ⟨p, ((hmem p).mpr ⟨hp, he⟩).1, he, h⟩

/-- What a call has written is what the next comparison wants, and the comparison looks at the
`.conf` files only. -/
theorem writer_comparer_agree (localAsn : UInt32) :
    (∀ peers pid forceReload P d d',
      Ends exec P d (syncBirdConfigsFor localAsn pid peers forceReload).run (.ok ()) d' →
      ∃ desired, desiredGeneration localAsn peers = .ok desired ∧
        (∀ r d'', Ends exec Works d' (generationMatches "current" desired).run r d'' →
          r = .ok true ∧ d'' = d') ∧
        ∀ peers', SameEnabled peers peers' → ∀ pid',
          (∃ calls r d'', Suffers exec (fun _ _ => true) Works d'
            (syncBirdConfigsFor localAsn pid' peers' false).run calls r d'') ∧
          ∀ calls r d'', Suffers exec (fun _ _ => true) Works d'
            (syncBirdConfigsFor localAsn pid' peers' false).run calls r d'' →
            r = .ok () ∧ d'' = d' ∧ ∀ e ∈ calls, Quiet e) ∧
    (∀ path desired d files, d.tree.resolve path = some files →
      (∃ calls r d', Suffers exec (fun _ _ => true) Works d
        (generationMatches path desired).run calls r d') ∧
      ∀ r d', Ends exec Works d (generationMatches path desired).run r d' →
        r = .ok (decide (confFiles files = desired)) ∧ d' = d) ∧
    ∀ (entries : List (String × List UInt8)) desired, (entries.map Prod.fst).Nodup →
      (entriesMatch entries desired = true ↔ ∀ name content, desired[name]? = some content ↔
        (name, content) ∈ entries ∧ name.endsWith ".conf" = true) := by
  refine ⟨?_, ?_, fun entries desired distinct => entriesMatch_iff distinct⟩
  · intro peers pid forceReload P d d' run
    obtain ⟨desired, hd, settled⟩ := must_syncBirdConfigsFor.ends run
    refine ⟨desired, hd, fun r d'' again => (must_generationMatches_true settled.2).ends again, ?_⟩
    intro peers' same pid'
    refine ⟨exists_run exists_works _ _ _, fun calls r d'' later => ?_⟩
    obtain ⟨⟨hr, hd''⟩, quiet⟩ :=
      (must_syncBirdConfigsFor_settled (desiredGeneration_same same hd) settled).suffers later
    exact ⟨hr, hd'', quiet⟩
  · intro path desired d files resolved
    exact ⟨exists_run exists_works _ _ _, fun r d' run =>
      (must_generationMatches_files resolved).ends run⟩

/-- A first call, and another one after a disabled row was added in front. A file of another name
does not count. -/
theorem writer_comparer_agree_sample :
    (∃ d', Ends exec (fun _ _ => True) ⟨⟨∅, ∅⟩, ∅⟩
        (syncBirdConfigsFor 4242420000 1 [CurrentLink.samplePeer 4242421111] false).run (.ok ()) d' ∧
      d'.tree.links["current"]? = some (generationPath 5) ∧
      ∃ calls, Suffers exec (fun _ _ => true) Works d' (syncBirdConfigsFor 4242420000 2
        [{ CurrentLink.samplePeer 4242422222 with peerId := 2, status := .disabled },
          CurrentLink.samplePeer 4242421111] false).run calls (.ok ()) d' ∧ ∀ e ∈ calls, Quiet e) ∧
    ∃ d', Ends exec Works
      ⟨⟨(∅ : Std.ExtTreeMap String Files).insert "g"
        (((∅ : Files).insert "wgp1.conf" "x").insert ".wgp1.conf.1.5.tmp" "y"), ∅⟩, ∅⟩
      (generationMatches "g" ((∅ : Generation).insert "wgp1.conf" "x")).run (.ok true) d' := by
  constructor
  · have run : (runWith allWork
        (syncBirdConfigsFor 4242420000 1 [CurrentLink.samplePeer 4242421111] false).run
        ⟨⟨∅, ∅⟩, ∅⟩).map (fun a => (a.1, a.2.tree.links["current"]?)) =
          some (.ok (), some (generationPath 5)) := by
      decide +kernel
    obtain ⟨⟨r, d'⟩, hrun, hview⟩ := Option.map_eq_some_iff.mp run
    obtain ⟨rfl, linked⟩ := Prod.mk.inj hview
    have ends : Ends exec (fun _ _ => True) ⟨⟨∅, ∅⟩, ∅⟩
        (syncBirdConfigsFor 4242420000 1 [CurrentLink.samplePeer 4242421111] false).run (.ok ()) d' :=
      runWith_ends id allWork_exec hrun
    obtain ⟨desired, -, -, later⟩ := (writer_comparer_agree 4242420000).1 _ _ _ _ _ _ ends
    obtain ⟨⟨calls, r, d'', again⟩, same⟩ := later
      [{ CurrentLink.samplePeer 4242422222 with peerId := 2, status := .disabled },
        CurrentLink.samplePeer 4242421111] (.inl (by decide)) 2
    obtain ⟨rfl, rfl, quiet⟩ := same calls r d'' again
    exact ⟨d'', ends, linked, calls, again, quiet⟩
  · obtain ⟨⟨calls, r, d', run⟩, matched⟩ := (writer_comparer_agree 4242420000).2.1 "g"
      ((∅ : Generation).insert "wgp1.conf" "x")
      ⟨⟨(∅ : Std.ExtTreeMap String Files).insert "g"
        (((∅ : Files).insert "wgp1.conf" "x").insert ".wgp1.conf.1.5.tmp" "y"), ∅⟩, ∅⟩
      (((∅ : Files).insert "wgp1.conf" "x").insert ".wgp1.conf.1.5.tmp" "y") (by decide +kernel)
    obtain ⟨rfl, -⟩ := matched r d' run.ends
    have same : confFiles (((∅ : Files).insert "wgp1.conf" "x").insert ".wgp1.conf.1.5.tmp" "y") =
        (∅ : Generation).insert "wgp1.conf" "x" := by
      decide +kernel
    rw [same, decide_eq_true rfl] at run
    exact ⟨d', run.ends⟩

end Later

end Autopeer.BirdAgreement
