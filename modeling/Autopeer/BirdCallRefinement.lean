import Autopeer.BirdRefinement
import Autopeer.CurrentLink
import Autopeer.GenerationReading

/-! The calls of a sync refine its steps: however the calls end, there are faults with which the
steps end in the same way, on what they see of the files. -/
namespace Autopeer.BirdCallRefinement
open PeerData ProgramTree ProgramRuns ProgramTriples BirdGeneration LinkPublication
open BirdCalls BirdTriples GenerationReading
open LinkedDirectories hiding exec
open BirdFiles (BirdRoot Faults SwitchFaults Disk attemptStep noFaults emptyPath generationName
  generationPath)
open BirdFilesSteps

section Roots
variable {d d' : BirdDisk} {path target dir : String} {files files' : Files} {desired : Generation}

/-- What the steps see: the `.conf` files of each directory, and where `current` leads. -/
def root (d : BirdDisk) : BirdRoot where
  directories path := (d.tree.directories[path]?).map confFiles
  current := d.tree.links["current"]?
  loaded := d.loaded

@[simp] lemma root_directories :
    (root d).directories path = (d.tree.directories[path]?).map confFiles := rfl

/-- Every directory is one of a generation. -/
def Plain (s : BirdRoot) : Prop :=
  ∀ path, (s.directories path).isSome → path.startsWith "generations/" = true

lemma root_put : root { d with tree := d.tree.put dir files } = (root d).withFiles dir (confFiles files) := by
  have each : (root { d with tree := d.tree.put dir files }).directories =
      Function.update (root d).directories dir (some (confFiles files)) := by
    funext path
    rw [root_directories, put_directories, Function.update_apply]
    by_cases h : dir = path
    · simp [h]
    · rw [if_neg h, if_neg (Ne.symm h), root_directories]
  rw [BirdRoot.withFiles, ← each]
  rfl

/-- A file of another name is not seen. -/
lemma root_put_same (there : d.tree.directories[dir]? = some files)
    (same : confFiles files' = confFiles files) :
    root { d with tree := d.tree.put dir files' } = root d := by
  have known : (root d).directories dir = some (confFiles files) := by
    rw [root_directories, there, Option.map_some]
  rw [root_put, same, BirdRoot.withFiles, ← known, Function.update_eq_self]

lemma Plain.inside (plain : Plain (root d)) : d.tree.inside "current" = [] := by
  refine List.filter_eq_nil_iff.mpr fun dir hd inside => ?_
  have there : ((root d).directories dir).isSome := by
    rw [root_directories, Option.isSome_map, ← Std.ExtTreeMap.mem_iff_isSome_getElem?]
    exact Std.ExtTreeMap.mem_keys.mp hd
  have first := String.startsWith_string_iff.mp (plain dir there)
  have second := String.startsWith_string_iff.mp inside
  obtain ⟨rest, hrest⟩ := first
  rw [← hrest] at second
  simp at second

lemma Plain.resolve (plain : Plain (root d)) :
    d.tree.resolve "current" = (d.tree.links["current"]?).bind fun target => d.tree.directories[target]? := by
  cases h : d.tree.links["current"]? with
  | some target => simp [Tree.resolve, h]
  | none =>
    rw [Tree.resolve, h]
    cases hd : d.tree.directories["current"]? with
    | none => simp
    | some files =>
      have other : "current".startsWith "generations/" = false := by decide +kernel
      have there := plain "current" (by rw [root_directories, hd, Option.map_some, Option.isSome_some])
      rw [other] at there
      cases there

/-- The files under `current`, as the steps find them. -/
lemma root_current (plain : Plain (root d)) :
    (root d).current.bind (root d).directories = (d.tree.resolve "current").map confFiles := by
  rw [plain.resolve, Option.map_bind]
  rfl

lemma shows_current (plain : Plain (root d)) :
    Shows d.tree "current" desired ↔ (root d).current.bind (root d).directories = some desired := by
  rw [root_current plain]
  cases h : d.tree.resolve "current" with
  | some files => simp [shows_iff h]
  | none =>
    refine iff_of_false (fun shows => ?_) (by simp)
    rcases shows.1 with hne | hne
    · exact hne h
    · exact hne plain.inside

lemma root_load (plain : Plain (root d)) : root d.load = (root d).load := by
  have content : confFiles ((d.tree.resolve "current").getD ∅) = (root d).content := by
    rw [BirdRoot.content, BirdRoot.at, root_current plain]
    cases d.tree.resolve "current" with
    | some files => rfl
    | none => exact confFiles_empty
  rw [BirdDisk.load, content]
  rfl

end Roots

section Sequencing
variable {P : BirdCall → BirdOutcome → Prop} {α β φ ψ : Type} {d : BirdDisk} {x : BirdAction α}
  {F : φ → Disk α}

/-- However the calls end, some faults make the steps end so. -/
def Simulates (P : BirdCall → BirdOutcome → Prop) (x : BirdAction α) (F : φ → Disk α)
    (d : BirdDisk) : Prop :=
  Must exec P (fun _ => True) x.run d fun r d' => ∃ f, F f (root d) = (r, root d')

/-- The faults of a sequence are those of its parts. -/
lemma Simulates.bind [Nonempty ψ] {k : α → BirdAction β} {G : α → ψ → Disk β}
    (first : Simulates P x F d)
    (rest : ∀ a d' f, F f (root d) = (.ok a, root d') → Simulates P (k a) (G a) d') :
    Simulates P (x >>= k) (fun f : φ × ψ => F f.1 >>= fun a => G a f.2) d := by
  apply Must.bind first
  · rintro a v ⟨f, hf⟩
    exact (rest a v f hf).mono fun r d' ⟨g, hg⟩ => ⟨(f, g), (bind_ok hf).trans hg⟩
  · rintro error v ⟨f, hf⟩
    obtain ⟨g⟩ := ‹Nonempty ψ›
    exact ⟨(f, g), bind_error hf⟩

/-- The faults of the parts, put together. -/
lemma Simulates.gather {G : ψ → Disk α} (h : Simulates P x F d) (merge : φ → ψ)
    (same : ∀ f, G (merge f) (root d) = F f (root d)) : Simulates P x G d :=
  h.mono fun _ _ ⟨f, hf⟩ => ⟨merge f, (same f).trans hf⟩

/-- A part that the steps do not see. -/
def Unseen (A : α → BirdDisk → Prop) (d : BirdDisk) (r : Except PeerError α) (v : BirdDisk) : Prop :=
  root v = root d ∧ ∀ a, r = .ok a → A a v

/-- If such a part fails, so may the step that it belongs to. -/
lemma Simulates.after {k : α → BirdAction β} {G : φ → Disk β} {A : α → BirdDisk → Prop}
    (refuse : ∀ error, ∃ f, G f (root d) = (.error error, root d))
    (hidden : Must exec P (fun _ => True) x.run d (Unseen A d))
    (rest : ∀ a v, root v = root d → A a v → Simulates P (k a) G v) : Simulates P (x >>= k) G d := by
  apply Must.bind hidden
  · rintro a v ⟨same, ha⟩
    refine (rest a v same (ha a rfl)).mono fun r d' ⟨f, hf⟩ => ⟨f, ?_⟩
    rwa [← same]
  · rintro error v ⟨same, -⟩
    obtain ⟨f, hf⟩ := refuse error
    exact ⟨f, by rw [hf, same]⟩

lemma unseen_looks {e : Call} {path : String} (hl : e.looks = true) :
    Must exec P (fun _ => True) (fileCall e path).run d (Unseen (fun _ v => v = d) d) :=
  must_looks trivial hl fun _ => ⟨rfl, fun _ _ => rfl⟩

lemma unseen_uniqueSuffix :
    Must exec P (fun _ => True) uniqueSuffix.run d (Unseen (fun _ v => v = d) d) :=
  must_uniqueSuffix trivial fun _ => ⟨rfl, fun _ _ => rfl⟩

end Sequencing

section Layout
variable {P : BirdCall → BirdOutcome → Prop} {d d' : BirdDisk} {target path : String}

lemma Switched.root_same (h : Switched target d d')
    (same : d'.tree.links["current"]? = d.tree.links["current"]?) : root d' = root d := by
  rw [root, root, h.directories, h.loaded, same]

lemma Switched.root_linkTo (h : Switched target d d')
    (linked : d'.tree.links["current"]? = some target) : root d' = (root d).linkTo target := by
  rw [root, root, h.directories, h.loaded, linked]
  rfl

lemma simulates_atomicSwitchCurrent :
    Simulates P (atomicSwitchCurrent target) (BirdFiles.atomicSwitchCurrent · target) d := by
  refine must_atomicSwitchCurrent.mono fun r d' ⟨switched, linked⟩ => ?_
  cases r with
  | ok _ =>
    refine ⟨⟨none, none, none⟩, ?_⟩
    rw [Switched.root_linkTo switched (linked rfl)]
    rfl
  | error error =>
    rcases switched.current with same | linked
    · refine ⟨⟨some error, none, none⟩, ?_⟩
      rw [Switched.root_same switched same]
      rfl
    · refine ⟨⟨none, none, some error⟩, ?_⟩
      rw [Switched.root_linkTo switched linked]
      rfl

lemma simulates_createDirAll : Simulates P (fileCall (.createDirAll emptyPath) emptyPath)
    (attemptStep · BirdRoot.withEmpty) d := by
  refine must_fileCall trivial fun o r t _ hx => ?_
  rcases createDirAll_effect hx with ⟨⟨source, rfl⟩, rfl⟩ | ⟨rfl, rfl⟩
  · exact ⟨some _, rfl⟩
  · refine ⟨none, ?_⟩
    have empty : confFiles ((d.tree.directories[emptyPath]?).getD ∅) =
        (root d).at (some emptyPath) := by
      rw [BirdRoot.at, Option.bind_some, root_directories]
      cases d.tree.directories[emptyPath]? with
      | some files => rfl
      | none => exact confFiles_empty
    rw [root_put, empty]
    rfl

lemma unseen_symlinkMetadata : Must exec P (fun _ => True)
    (rawCall (.symlinkMetadata "current")).run d (Unseen (fun r v => v = d ∧
      (r = .ok () → (d.tree.links["current"]?).isSome) ∧
        (r = .error .notFound → d.tree.links["current"]? = none)) d) := by
  refine must_rawCall trivial fun o r t _ hx => ?_
  obtain ⟨rfl, linked, missing⟩ := symlinkMetadata_effect hx
  refine ⟨rfl, fun r' hr => ?_⟩
  obtain rfl := Except.ok.inj hr
  exact ⟨rfl, linked, missing⟩

lemma simulates_link : Simulates P
    (do match ← rawCall (.symlinkMetadata "current") with
        | .ok _ => pure ()
        | .error .notFound => atomicSwitchCurrent emptyPath
        | .error source => throw (.birdConfigIo source.text "current"))
    (fun f : Option PeerError × SwitchFaults => do
      attemptStep f.1 id
      fun s =>
        match s.current with
        | some _ => (.ok (), s)
        | none => BirdFiles.atomicSwitchCurrent f.2 emptyPath s) d := by
  refine Simulates.after (fun error => ⟨(some error, default), rfl⟩) unseen_symlinkMetadata ?_
  rintro r v - ⟨rfl, linked, missing⟩
  match r with
  | .ok _ =>
    obtain ⟨target, ht⟩ := Option.isSome_iff_exists.mp (linked rfl)
    refine ⟨(none, default), (bind_ok rfl).trans ?_⟩
    simp [root, ht]
  | .error .notFound =>
    refine simulates_atomicSwitchCurrent.gather (fun g => (none, g)) fun g => ?_
    refine (bind_ok rfl).trans ?_
    simp [root, missing rfl]
  | .error .alreadyExists => exact ⟨(some _, default), rfl⟩
  | .error (.other text) => exact ⟨(some _, default), rfl⟩

lemma simulates_ensureBirdLayout :
    Simulates P ensureBirdLayout BirdFiles.ensureBirdLayout d := by
  refine Simulates.gather (simulates_createDirAll.bind fun _ d _ _ => simulates_link)
    (fun f => { noFaults 0 with createDirAll := f.1, symlinkMetadata := f.2.1, layout := f.2.2 })
    fun _ => rfl

lemma simulates_generationMatches {desired : Generation} (plain : Plain (root d)) :
    Simulates P (generationMatches "current" desired)
      (BirdFiles.currentGenerationMatches · desired) d := by
  refine (must_generationMatches fun _ _ => trivial).mono fun r d' ⟨same, truth, _⟩ => ?_
  subst same
  cases r with
  | ok b =>
    refine ⟨noFaults 0, ?_⟩
    have hb := truth b rfl
    rw [shows_current plain] at hb
    have value : decide ((root d').current.bind (root d').directories = some desired) = b := by
      rw [Bool.eq_iff_iff, decide_eq_true_eq, hb]
    rw [← value]
    rfl
  | error error => exact ⟨{ noFaults 0 with readGeneration := some error }, rfl⟩

lemma simulates_reloadBird (plain : Plain (root d)) :
    Simulates P reloadBird BirdFiles.reloadBird d := by
  refine ⟨trivial, fun o r d' _ hx => ?_⟩
  simp only [exec] at hx
  split at hx
  · obtain ⟨rfl, rfl⟩ := Prod.mk.inj (Option.some.inj hx)
    exact ⟨some _, rfl⟩
  · obtain ⟨rfl, rfl⟩ := Prod.mk.inj (Option.some.inj hx)
    refine ⟨none, ?_⟩
    rw [root_load plain]
    rfl

lemma simulates_syncDirectory : Simulates P (syncDirectory path) (attemptStep · id) d := by
  refine must_syncDirectory fun r => ?_
  cases r with
  | ok _ => exact ⟨none, rfl⟩
  | error error => exact ⟨some error, rfl⟩

end Layout

section Writer
variable {P : BirdCall → BirdOutcome → Prop} {d : BirdDisk} {dir path name temporary content : String}
  {pid suffix : ℕ} {desired : Generation} {mode : UInt32}

/-- The file under its temporary name. -/
def Staged (dir temporary text : String) (v : BirdDisk) : Prop :=
  ∃ files, v.tree.directories[dir]? = some files ∧ files[temporary]? = some text

lemma staged_put {files : Files} {text : String} :
    Staged dir temporary text { d with tree := d.tree.put dir (files.insert temporary text) } := by
  refine ⟨files.insert temporary text, ?_, by simp⟩
  rw [put_directories, if_pos rfl]

lemma unseen_openFile (other : temporary.endsWith ".conf" = false) :
    Must exec P (fun _ => True) (fileCall (.openFile dir temporary mode) path).run d
      (Unseen (fun _ => Staged dir temporary "") d) := by
  refine must_fileCall trivial fun o r t _ hx => ?_
  rcases openFile_effect hx with ⟨⟨source, rfl⟩, rfl⟩ | ⟨files, hd, rfl, rfl⟩
  · exact ⟨rfl, fun _ h => nomatch h⟩
  · exact ⟨root_put_same hd (confFiles_insert_other other), fun _ _ => staged_put⟩

lemma unseen_writeAll (other : temporary.endsWith ".conf" = false) (staged : Staged dir temporary "" d) :
    Must exec P (fun _ => True) (fileCall (.writeAll dir temporary content) path).run d
      (Unseen (fun _ => Staged dir temporary content) d) := by
  refine must_fileCall trivial fun o r t _ hx => ?_
  obtain ⟨files, hd, hn⟩ := staged
  rcases writeAll_effect hx with
    ⟨⟨source, rfl⟩, rfl | ⟨files', part, hd', rfl⟩⟩ | ⟨files', before, hd', hb, rfl, rfl⟩
  · exact ⟨rfl, fun _ h => nomatch h⟩
  · exact ⟨root_put_same hd' (confFiles_insert_other other), fun _ h => nomatch h⟩
  · obtain rfl := Option.some.inj (hd'.symm.trans hd)
    obtain rfl := Option.some.inj (hb.symm.trans hn)
    rw [String.empty_append]
    exact ⟨root_put_same hd (confFiles_insert_other other), fun _ _ => staged_put⟩

/-- Only the rename is seen. -/
lemma simulates_renameFile (other : temporary.endsWith ".conf" = false)
    (isConf : name.endsWith ".conf" = true) (staged : Staged dir temporary content d) :
    Simulates P (fileCall (.renameFile dir temporary name) path)
      (BirdFiles.writeAtomic · dir name content) d := by
  refine must_fileCall trivial fun o r t _ hx => ?_
  obtain ⟨files, hd, hn⟩ := staged
  rcases renameFile_effect hx with ⟨⟨source, rfl⟩, rfl⟩ | ⟨files', text, hd', ht, rfl, rfl⟩
  · exact ⟨some _, rfl⟩
  · obtain rfl := Option.some.inj (hd'.symm.trans hd)
    obtain rfl := Option.some.inj (ht.symm.trans hn)
    refine ⟨none, ?_⟩
    have before : (root d).at (some dir) = confFiles files' := by
      rw [BirdRoot.at, Option.bind_some, root_directories, hd]
      rfl
    rw [root_put, confFiles_insert isConf, confFiles_erase_other other, ← before]
    rfl

/-- Until the rename the steps see none of it. -/
lemma simulates_writeAtomic (isConf : name.endsWith ".conf" = true) :
    Simulates P (writeAtomic pid dir name content) (BirdFiles.writeAtomic · dir name content) d := by
  have refuse : ∀ {v : BirdDisk} error, ∃ fault,
      BirdFiles.writeAtomic fault dir name content (root v) = (.error error, root v) :=
    fun error => ⟨some error, rfl⟩
  refine Simulates.after refuse unseen_uniqueSuffix ?_
  rintro suffix _ - rfl
  have other := temporaryName_conf pid suffix name
  simp only
  generalize temporaryName pid suffix name = temporary at other
  refine Simulates.after refuse (unseen_looks rfl) ?_
  rintro permissions _ - rfl
  refine Simulates.after refuse (unseen_openFile other) fun _ d _ opened => ?_
  refine Simulates.after refuse (unseen_writeAll other opened) fun _ d _ staged => ?_
  refine Simulates.after refuse (unseen_looks rfl) ?_
  rintro _ _ - rfl
  refine Simulates.after refuse (unseen_looks rfl) ?_
  rintro _ _ - rfl
  refine Simulates.after refuse (unseen_looks rfl) ?_
  rintro _ _ - rfl
  exact simulates_renameFile other isConf staged

lemma writeFiles_congr {fault fault' : String → Option PeerError} {list : List (String × String)}
    (h : ∀ file ∈ list, fault file.1 = fault' file.1) :
    BirdFiles.writeFiles fault path list = BirdFiles.writeFiles fault' path list := by
  induction list with
  | nil => rfl
  | cons file list ih =>
    rw [List.forall_mem_cons] at h
    rw [BirdFiles.writeFiles, BirdFiles.writeFiles, h.1, ih h.2]

/-- The names differ, so each file has a fault of its own. -/
lemma simulates_writeFiles {list : List (String × String)} (distinct : (list.map Prod.fst).Nodup)
    (names : ∀ file ∈ list, file.1.endsWith ".conf" = true) :
    Simulates P (list.forM fun file => writeAtomic pid path file.1 file.2)
      (BirdFiles.writeFiles · path list) d := by
  induction list generalizing d with
  | nil => exact ⟨fun _ => none, rfl⟩
  | cons file list ih =>
    obtain ⟨fresh, distinct⟩ := List.nodup_cons.mp distinct
    rw [List.forall_mem_cons] at names
    have each : Simulates P (writeAtomic pid path file.1 file.2 >>= fun _ =>
        list.forM fun file => writeAtomic pid path file.1 file.2) _ d :=
      Simulates.bind (simulates_writeAtomic names.1) fun _ v _ _ => ih distinct names.2
    refine each.gather (fun f => Function.update f.2 file.1 f.1) fun f => ?_
    have later : ∀ other ∈ list, Function.update f.2 file.1 f.1 other.1 = f.2 other.1 := by
      intro other ho
      refine Function.update_of_ne (fun heq => fresh ?_) _ _
      rw [← heq]
      exact List.mem_map_of_mem ho
    rw [BirdFiles.writeFiles, Function.update_self, writeFiles_congr later]

lemma simulates_createDir :
    Simulates P (fileCall (.createDir path) path) (BirdFiles.createDir · path) d := by
  refine must_fileCall trivial fun o r t _ hx => ?_
  rcases createDir_effect hx with
    ⟨⟨text, rfl⟩, rfl⟩ | ⟨rfl, there, rfl⟩ | ⟨rfl, fresh, rfl⟩
  · exact ⟨some _, rfl⟩
  · refine ⟨none, ?_⟩
    simp [BirdFiles.createDir, there, context, Refusal.text]
  · refine ⟨none, ?_⟩
    rw [root_put, confFiles_empty]
    simp [BirdFiles.createDir, fresh, context]

lemma distinct_names : (desired.toList.map Prod.fst).Nodup := by
  rw [Std.ExtTreeMap.map_fst_toList_eq_keys]
  exact Std.ExtTreeMap.nodup_keys

lemma simulates_prepareGeneration (names : ∀ file ∈ desired.toList, file.1.endsWith ".conf" = true) :
    Simulates P (prepareGeneration pid (generationPath suffix) desired)
      (fun f : Faults => BirdFiles.prepareGeneration { f with suffix } desired) d := by
  refine Simulates.gather (simulates_createDir.bind fun _ _ _ _ =>
    (simulates_writeFiles distinct_names names).bind fun _ _ _ _ => simulates_syncDirectory)
    (fun f => { noFaults 0 with createDir := f.1, writeAtomic := f.2.1, syncDirectory := f.2.2 })
    fun _ => rfl

end Writer

section Removal
variable {P : BirdCall → BirdOutcome → Prop} {d d' v : BirdDisk} {dir name entry : String}

/-- A directory that the new generation makes obsolete. -/
def Old (name path : String) : Prop :=
  path.startsWith "generations/generation-" = true ∧ path ≠ "generations/" ++ name

/-- Only old directories go, and none is made. -/
structure Cleared (name : String) (d d' : BirdDisk) : Prop where
  links : d'.tree.links = d.tree.links
  loaded : d'.loaded = d.loaded
  kept : ∀ path : String, ¬Old name path → d'.tree.directories[path]? = d.tree.directories[path]?
  made : ∀ path : String, (d'.tree.directories[path]?).isSome → (d.tree.directories[path]?).isSome

lemma Cleared.refl : Cleared name d d := ⟨rfl, rfl, fun _ _ => rfl, fun _ h => h⟩

lemma Cleared.trans (h : Cleared name d v) (h' : Cleared name v d') : Cleared name d d' :=
  ⟨h'.links.trans h.links, h'.loaded.trans h.loaded,
    fun path hp => (h'.kept path hp).trans (h.kept path hp), fun path hp => h.made path (h'.made path hp)⟩

lemma cleared_removeDirAll {o : Outcome} {r : Except Refusal Unit} {t : Tree} (old : Old name dir)
    (h : LinkedDirectories.exec o (.removeDirAll dir) d.tree = some (r, t)) :
    Cleared name d { d with tree := t } := by
  have other : ∀ path, ¬Old name path → dir ≠ path := by
    rintro path hp rfl
    exact hp old
  rcases removeDirAll_effect h with rfl | rfl | ⟨there, files, rfl⟩
  · exact .refl
  · refine ⟨rfl, rfl, fun path hp => ?_, fun path hp => ?_⟩
    · rw [remove_directories, if_neg (other path hp)]
    · rw [remove_directories] at hp
      split at hp
      · cases hp
      · exact hp
  · refine ⟨rfl, rfl, fun path hp => ?_, fun path hp => ?_⟩
    · rw [put_directories, if_neg (other path hp)]
    · rw [put_directories] at hp
      split at hp
      · rename_i heq
        rwa [← heq]
      · exact hp

lemma must_removeEntry : Must exec P (fun _ => True) (removeEntry name entry).run d
    fun r d' => r = .ok () ∧ Cleared name d d' := by
  unfold removeEntry
  split
  · exact ⟨rfl, .refl⟩
  · rename_i keep
    push Not at keep
    obtain ⟨-, notCurrent, isGeneration⟩ := keep
    have old : Old name ("generations/" ++ entry) := by
      refine ⟨?_, fun heq => notCurrent ((String.append_right_inj "generations/").mp heq)⟩
      have start : "generation-".toList <+: entry.toList :=
        String.startsWith_string_iff.mp (by simpa using isGeneration)
      rw [String.startsWith_string_iff, String.toList_append]
      exact (List.prefix_append_right_inj "generations/".toList).mpr start
    exact must_ignore trivial fun o r t _ hx => ⟨rfl, cleared_removeDirAll old hx⟩

lemma must_removeEntries {names : List String} :
    Must exec P (fun _ => True) (removeEntries name names).run d
      fun r d' => r = .ok () ∧ Cleared name d d' := by
  induction names generalizing d with
  | nil =>
    refine must_ignore trivial fun o r t _ hx => ⟨rfl, ?_⟩
    rw [exec_looks rfl hx]
    exact .refl
  | cons entry names ih =>
    apply Must.bind (A := fun r v => (∃ a, r = .ok a) ∧ v = d)
    · refine must_rawCall trivial fun o r t _ hx => ⟨⟨r, rfl⟩, ?_⟩
      rw [exec_looks rfl hx]
    · rintro r _ ⟨-, rfl⟩
      cases r with
      | error source => exact ⟨rfl, .refl⟩
      | ok _ =>
        apply Must.bind must_removeEntry
        · rintro _ v ⟨-, first⟩
          exact ih.mono fun r d' ⟨hr, rest⟩ => ⟨hr, first.trans rest⟩
        · rintro error v ⟨hr, -⟩
          cases hr
    · rintro error v ⟨⟨a, ha⟩, -⟩
      cases ha

lemma must_removeOldGenerations :
    Must exec P (fun _ => True) (removeOldGenerations name).run d
      fun r d' => r = .ok () ∧ Cleared name d d' := by
  apply Must.bind (A := fun r v => (∃ a, r = .ok a) ∧ v = d)
  · refine must_rawCall trivial fun o r t _ hx => ⟨⟨r, rfl⟩, ?_⟩
    rw [exec_looks rfl hx]
  · rintro r _ ⟨-, rfl⟩
    cases r with
    | error source => exact ⟨rfl, .refl⟩
    | ok names => exact must_removeEntries
  · rintro error v ⟨⟨a, ha⟩, -⟩
    cases ha

/-- What is left of the old directories is what the removal left. -/
lemma Cleared.root_eq (h : Cleared name d d') :
    root d' = (root d).withoutOld (root d').directories name := by
  have each : (root d').directories =
      ((root d).withoutOld (root d').directories name).directories := by
    funext path
    simp only [BirdRoot.withoutOld]
    split
    · cases hp : (root d').directories path with
      | none => cases (root d).directories path <;> rfl
      | some files =>
        have there : (d'.tree.directories[path]?).isSome := by
          rw [← Option.isSome_map (f := confFiles), ← root_directories, hp]
          rfl
        obtain ⟨files', hf⟩ := Option.isSome_iff_exists.mp (h.made path there)
        rw [root_directories, hf]
        rfl
    · rename_i young
      rw [root_directories, root_directories, h.kept path (by simpa [Old] using young)]
  rw [root, h.links, h.loaded]
  exact congrArg (fun directories => BirdRoot.mk directories _ _) each

lemma simulates_removeOldGenerations : Simulates P (removeOldGenerations name)
    (fun f : Faults => BirdFiles.removeOldGenerations f name) d := by
  refine must_removeOldGenerations.mono fun r d' ⟨hr, cleared⟩ => ?_
  refine ⟨{ noFaults 0 with leftover := (root d').directories }, ?_⟩
  rw [hr]
  exact congrArg (Prod.mk (Except.ok ())) cleared.root_eq.symm

end Removal

section Install
variable {P : BirdCall → BirdOutcome → Prop} {d d' : BirdDisk} {s s' : BirdRoot} {suffix : ℕ}
  {oldTarget : Option String} {reloadError : PeerError} {f : Faults}

lemma Plain.congr (plain : Plain s) (same : s'.directories = s.directories) : Plain s' := by
  rw [Plain, same]
  exact plain

lemma atomicSwitchCurrent_directories {g : SwitchFaults} {target : String}
    {r : Except PeerError Unit} (h : BirdFiles.atomicSwitchCurrent g target s = (r, s')) :
    s'.directories = s.directories := by
  rcases atomicSwitchCurrent_cases g target s with ⟨-, -, hs⟩ | ⟨-, -, e, hs⟩ | ⟨-, e, hs⟩
  all_goals
    obtain ⟨-, rfl⟩ := Prod.mk.inj (h.symm.trans hs)
    rfl

lemma restoreCurrent_directories {r : Except PeerError Unit}
    (h : BirdFiles.restoreCurrent f oldTarget s = (r, s')) : s'.directories = s.directories := by
  cases oldTarget with
  | some target => exact atomicSwitchCurrent_directories h
  | none =>
    simp only [BirdFiles.restoreCurrent, attemptStep] at h
    split at h
    all_goals
      obtain ⟨-, rfl⟩ := Prod.mk.inj h
      rfl

lemma simulates_removeOptional : Simulates P (removeOptional "current")
    (attemptStep · BirdRoot.unlink) d := by
  apply Must.bind (A := fun r v => (∃ text, r = .ok (.error (.other text))) ∧ v = d ∨
    (r = .ok (.error .notFound) ∨ r = .ok (.ok ())) ∧ root v = (root d).unlink)
  · refine must_rawCall trivial fun o r t _ hx => ?_
    rcases removeFile_effect hx with ⟨⟨text, rfl⟩, rfl⟩ | ⟨rfl, missing, rfl⟩ | ⟨rfl, rfl⟩
    · exact .inl ⟨⟨text, rfl⟩, rfl⟩
    · refine .inr ⟨.inl rfl, ?_⟩
      rw [root, missing]
      rfl
    · refine .inr ⟨.inr rfl, ?_⟩
      rw [root, removeLink_links, if_pos rfl]
      rfl
  · rintro r v (⟨⟨text, hr⟩, rfl⟩ | ⟨hr | hr, hv⟩)
    · obtain rfl := Except.ok.inj hr
      exact ⟨some _, rfl⟩
    · obtain rfl := Except.ok.inj hr
      exact ⟨none, congrArg (Prod.mk (Except.ok ())) hv.symm⟩
    · obtain rfl := Except.ok.inj hr
      exact ⟨none, congrArg (Prod.mk (Except.ok ())) hv.symm⟩
  · rintro error v (⟨⟨text, hr⟩, -⟩ | ⟨hr | hr, -⟩) <;> cases hr

lemma simulates_restoreCurrent : Simulates P (restoreCurrent oldTarget)
    (BirdFiles.restoreCurrent · oldTarget) d := by
  cases oldTarget with
  | some target =>
    exact simulates_atomicSwitchCurrent.gather (fun g => { noFaults 0 with restore := g }) fun _ => rfl
  | none =>
    exact simulates_removeOptional.gather (fun g => { noFaults 0 with removeFile := g }) fun _ => rfl

lemma restoreCurrent_reloadAgain {fault : Option PeerError} :
    BirdFiles.restoreCurrent { f with reloadAgain := fault } oldTarget s =
      BirdFiles.restoreCurrent f oldTarget s := by
  cases oldTarget <;> rfl

lemma simulates_rollBack (plain : Plain (root d)) : Simulates P (rollBack oldTarget reloadError)
    (BirdFiles.rollBack · oldTarget reloadError) d := by
  apply Must.bind (A := fun r v => ∃ r' f, r = .ok r' ∧
    BirdFiles.restoreCurrent f oldTarget (root d) = (r', root v))
  · refine Must.attempt (simulates_restoreCurrent.mono fun r v ⟨f, hf⟩ => ⟨r, f, rfl, hf⟩)
  · rintro r v ⟨_, f, hr, hf⟩
    obtain rfl := Except.ok.inj hr
    cases r with
    | error restoreError => exact ⟨f, rollBack_error hf⟩
    | ok _ =>
      have plain : Plain (root v) := plain.congr (restoreCurrent_directories hf)
      apply Must.bind (A := fun r v' => ∃ r' fault, r = .ok r' ∧
        BirdFiles.reloadBird fault (root v) = (r', root v'))
      · exact Must.attempt ((simulates_reloadBird plain).mono fun r v' ⟨fault, h⟩ => ⟨r, fault, rfl, h⟩)
      · rintro _ v' ⟨_, fault, -, h⟩
        exact ⟨{ f with reloadAgain := fault },
          (rollBack_ok (restoreCurrent_reloadAgain.trans hf)).trans
            (congrArg (fun x => (Except.error reloadError, x.2)) h)⟩
      · rintro error v' ⟨_, _, hr, -⟩
        cases hr
  · rintro error v ⟨_, _, hr, -⟩
    cases hr

lemma simulates_reloadOrRollBack (plain : Plain (root d)) :
    Simulates P
      (do match ← attempt reloadBird with
          | .error reloadError => rollBack oldTarget reloadError
          | .ok _ => removeOldGenerations (generationName suffix))
      (fun f : Faults => BirdFiles.reloadOrRollBack { f with suffix } oldTarget) d := by
  apply Must.bind (A := fun r v => ∃ r' fault, r = .ok r' ∧
    BirdFiles.reloadBird fault (root d) = (r', root v))
  · exact Must.attempt ((simulates_reloadBird plain).mono fun r v ⟨fault, h⟩ => ⟨r, fault, rfl, h⟩)
  · rintro r v ⟨_, fault, hr, h⟩
    obtain rfl := Except.ok.inj hr
    cases r with
    | error reloadError =>
      have same : root v = root d := by
        cases fault with
        | none => cases (Prod.mk.inj h).1
        | some error => exact (Prod.mk.inj h).2.symm
      refine (simulates_rollBack (same ▸ plain)).mono fun r d' ⟨f, hf⟩ => ?_
      refine ⟨{ f with reload := fault }, (reloadOrRollBack_error h).trans ?_⟩
      rw [← hf]
      cases oldTarget <;> rfl
    | ok _ =>
      refine simulates_removeOldGenerations.mono fun r d' ⟨f, hf⟩ => ?_
      exact ⟨{ f with reload := fault }, (reloadOrRollBack_ok h).trans hf⟩
  · rintro error v ⟨_, _, hr, -⟩
    cases hr

lemma unseen_readLink : Must exec P (fun _ => True) (rawCall (.readLink "current")).run d
    (Unseen (fun r v => v = d ∧
      ∃ unread : Bool, Except.toOption r = if unread then none else (root d).current) d) := by
  refine must_rawCall trivial fun o r t _ hx => ?_
  obtain rfl := exec_looks rfl hx
  refine ⟨rfl, fun r' hr => ⟨rfl, ?_⟩⟩
  obtain rfl := Except.ok.inj hr
  rcases exec_cases hx with ⟨text, -, rfl, -⟩ | ⟨-, hx⟩
  · exact ⟨true, rfl⟩
  · simp only [perform] at hx
    split at hx
    · rename_i target linked
      obtain ⟨rfl, -⟩ := Prod.mk.inj (Option.some.inj hx)
      exact ⟨false, linked.symm⟩
    · obtain ⟨rfl, -⟩ := Prod.mk.inj (Option.some.inj hx)
      exact ⟨true, rfl⟩

lemma simulates_installGeneration (plain : Plain (root d)) :
    Simulates P (installGeneration suffix)
      (fun f : Faults => BirdFiles.installGeneration { f with suffix }) d := by
  refine Simulates.after
    (fun error => ⟨{ noFaults 0 with switch := ⟨some error, none, none⟩ }, rfl⟩) unseen_readLink ?_
  rintro r d - ⟨rfl, unread, hr⟩
  refine Simulates.gather (simulates_atomicSwitchCurrent.bind fun _ v g hg =>
    simulates_reloadOrRollBack (plain.congr (atomicSwitchCurrent_directories hg)))
    (fun f => { f.2 with readLink := unread, switch := f.1 }) fun f => ?_
  have read : BirdFiles.readLink { f.2 with suffix, readLink := unread, switch := f.1 } (root d) =
      (.ok r.toOption, root d) := by
    rw [hr]
    rfl
  refine (bind_ok read).trans ?_
  cases r <;> rfl

end Install

section Sync
variable {P : BirdCall → BirdOutcome → Prop} {d d' : BirdDisk} {s s' : BirdRoot} {f : Faults}
  {localAsn : UInt32} {pid : ℕ} {peers : List Peer} {forceReload : Bool} {desired g : Generation}
  {path : String} {suffix : ℕ}

lemma generationPath_inside : (generationPath suffix).startsWith "generations/" = true := by
  rw [String.startsWith_string_iff, generationPath, String.toList_append]
  exact List.prefix_append _ _

lemma Plain.withFiles (plain : Plain s) (inside : path.startsWith "generations/" = true) :
    Plain (s.withFiles path g) := by
  intro other there
  by_cases h : other = path
  · rwa [h]
  · refine plain other ?_
    simpa [BirdRoot.withFiles, h] using there

lemma Plain.withEmpty (plain : Plain s) : Plain s.withEmpty :=
  plain.withFiles (by decide +kernel)

lemma Plain.laidOut (plain : Plain s) : Plain s.laidOut := plain.withEmpty.congr rfl

lemma Plain.ensured (plain : Plain s) (h : BirdFiles.ensureBirdLayout f s = (.ok (), s')) :
    Plain s' := by
  rcases ensureBirdLayout_cases f s with ⟨-, hs⟩ | ⟨-, e, u, hs, -⟩
  · obtain ⟨-, rfl⟩ := Prod.mk.inj (h.symm.trans hs)
    exact plain.laidOut
  · cases (Prod.mk.inj (h.symm.trans hs)).1

lemma Plain.prepared (plain : Plain s) (h : BirdFiles.prepareGeneration f desired s = (.ok (), s')) :
    Plain s' := by
  rcases prepareGeneration_cases f s desired with ⟨-, hs⟩ | ⟨-, e, u, hs, -⟩
  · obtain ⟨-, rfl⟩ := Prod.mk.inj (h.symm.trans hs)
    exact plain.withFiles generationPath_inside
  · cases (Prod.mk.inj (h.symm.trans hs)).1

lemma compared_same {r : Except PeerError Bool}
    (h : BirdFiles.currentGenerationMatches f desired s = (r, s')) : s' = s := by
  unfold BirdFiles.currentGenerationMatches at h
  split at h <;> exact (Prod.mk.inj h).2.symm

/-- The new generation, once the comparison has said no. -/
def newGeneration (pid : ℕ) (desired : Generation) : BirdAction Unit := do
  let suffix ← uniqueSuffix
  prepareGeneration pid (generationPath suffix) desired
  installGeneration suffix

lemma simulates_newGeneration (plain : Plain (root d))
    (names : ∀ file ∈ desired.toList, file.1.endsWith ".conf" = true) :
    Simulates P (newGeneration pid desired)
      (fun f : Faults => do
        BirdFiles.prepareGeneration f desired
        BirdFiles.installGeneration f) d := by
  refine Simulates.after (fun error => ⟨{ noFaults 0 with createDir := some error }, rfl⟩)
    unseen_uniqueSuffix ?_
  rintro suffix d - rfl
  exact Simulates.gather ((simulates_prepareGeneration names).bind fun _ v f hf =>
    simulates_installGeneration (plain.prepared hf))
    (fun f => { f.2 with suffix, createDir := f.1.createDir, writeAtomic := f.1.writeAtomic,
                         syncDirectory := f.1.syncDirectory }) fun _ => rfl

/-- The part of a sync after the layout, with the files it wants. -/
def callsDesired (pid : ℕ) (desired : Generation) (forceReload : Bool) : BirdAction Unit := do
  if ← generationMatches "current" desired then
    if forceReload then reloadBird else pure ()
  else newGeneration pid desired

lemma simulates_syncDesired (plain : Plain (root d))
    (names : ∀ file ∈ desired.toList, file.1.endsWith ".conf" = true) :
    Simulates P (callsDesired pid desired forceReload)
      (fun f : Faults => BirdRefinement.syncDesired f desired forceReload) d := by
  have later : ∀ (b : Bool) v f,
      BirdFiles.currentGenerationMatches f desired (root d) = (.ok b, root v) →
      Simulates P
        (if b = true then if forceReload then reloadBird else pure () else newGeneration pid desired)
        (fun f : Faults => if b = true then
            if forceReload then BirdFiles.reloadBird f.reload else pure ()
          else do
            BirdFiles.prepareGeneration f desired
            BirdFiles.installGeneration f) v := by
    intro b v f hf
    have plain : Plain (root v) := compared_same hf ▸ plain
    cases b with
    | false => exact simulates_newGeneration plain names
    | true =>
      cases forceReload with
      | false => exact ⟨noFaults 0, rfl⟩
      | true =>
        exact (simulates_reloadBird plain).gather (fun fault => { noFaults 0 with reload := fault })
          fun _ => rfl
  exact Simulates.gather ((simulates_generationMatches plain).bind later)
    (fun f => { f.2 with readGeneration := f.1.readGeneration }) fun _ => rfl

/-- The part of a sync after the layout. -/
def callsWanted (pid : ℕ) (forceReload : Bool) : Except PeerError Generation → BirdAction Unit
  | .error error => throw error
  | .ok desired => callsDesired pid desired forceReload

def stepsWanted (f : Faults) (forceReload : Bool) : Except PeerError Generation → Disk Unit
  | .error error => BirdFiles.fail error
  | .ok desired => BirdRefinement.syncDesired f desired forceReload

lemma simulates_wanted (plain : Plain (root d)) :
    Simulates P (callsWanted pid forceReload (desiredGeneration localAsn peers))
      (fun f : Faults => stepsWanted f forceReload (desiredGeneration localAsn peers)) d := by
  cases hd : desiredGeneration localAsn peers with
  | error error => exact ⟨noFaults 0, rfl⟩
  | ok desired =>
    have names : ∀ file ∈ desired.toList, file.1.endsWith ".conf" = true := by
      obtain ⟨-, rfl⟩ := desiredGeneration_inv hd
      exact CurrentLink.rendering_conf
    exact simulates_syncDesired plain names

/-- Whatever its calls meet, a sync ends as its steps do with some faults. -/
theorem simulates_syncBirdConfigsFor (plain : Plain (root d)) :
    Simulates P (syncBirdConfigsFor localAsn pid peers forceReload)
      (BirdFiles.syncBirdConfigsFor localAsn · peers forceReload) d := by
  have parts : Simulates P (ensureBirdLayout >>= fun _ =>
      callsWanted pid forceReload (desiredGeneration localAsn peers)) _ d :=
    simulates_ensureBirdLayout.bind fun _ v f hf => simulates_wanted (plain.ensured hf)
  refine Simulates.gather (x := syncBirdConfigsFor localAsn pid peers forceReload) parts
    (fun f => { f.2 with createDirAll := f.1.createDirAll, symlinkMetadata := f.1.symlinkMetadata,
                         layout := f.1.layout }) fun _ => rfl

end Sync

section Levels
variable {P : BirdCall → BirdOutcome → Prop} {d d' : BirdDisk} {s s' : BirdRoot} {f : Faults}
  {localAsn : UInt32} {pid : ℕ} {peers : List Peer} {forceReload : Bool} {r : Except PeerError Unit}
  {desired : Generation} {target : String}

lemma Plain.withoutOld {leftover : String → Option Generation} {name : String} (plain : Plain s) :
    Plain (s.withoutOld leftover name) := by
  intro path there
  refine plain path ?_
  simp only [BirdRoot.withoutOld] at there
  split at there
  · cases hp : s.directories path with
    | some files => rfl
    | none =>
      rw [hp] at there
      cases there
  · exact there

lemma Plain.installed (plain : Plain s) (linked : s.current = some target)
    (h : BirdFiles.installGeneration f s = (r, s')) : Plain s' := by
  rcases installGeneration_cases f linked with ⟨-, -, hs⟩ | ⟨e, failure, hs, -⟩
  · obtain ⟨-, rfl⟩ := Prod.mk.inj (h.symm.trans hs)
    exact Plain.withoutOld (plain.congr rfl)
  · obtain ⟨-, rfl⟩ := Prod.mk.inj (h.symm.trans hs)
    refine plain.congr ?_
    cases failure with
    | early laidOut => rfl
    | stranded => rfl
    | restored reloaded => cases reloaded <;> rfl
    | dropped reloaded => cases reloaded <;> rfl

lemma Plain.renewed (plain : Plain s) (linked : s.current = some target)
    (h : (BirdFiles.prepareGeneration f desired >>= fun _ => BirdFiles.installGeneration f) s =
      (r, s')) : Plain s' := by
  rcases prepareGeneration_cases f s desired with ⟨-, hs⟩ | ⟨-, e, u, hs, hu⟩
  · rw [bind_ok hs] at h
    exact Plain.installed (plain.withFiles generationPath_inside) linked h
  · obtain ⟨-, rfl⟩ := Prod.mk.inj (h.symm.trans (bind_error hs))
    rcases hu with rfl | ⟨-, g, rfl⟩
    · exact plain
    · exact plain.withFiles generationPath_inside

lemma Plain.syncDesired (plain : Plain s) (linked : s.current = some target)
    (h : BirdRefinement.syncDesired f desired forceReload s = (r, s')) : Plain s' := by
  cases hm : BirdFiles.currentGenerationMatches f desired s with
  | mk matched u =>
    obtain rfl := compared_same hm
    cases matched with
    | error error =>
      obtain ⟨-, rfl⟩ := Prod.mk.inj (h.symm.trans (bind_error hm))
      exact plain
    | ok b =>
      rw [BirdRefinement.syncDesired, bind_ok hm] at h
      cases b with
      | false => exact plain.renewed linked h
      | true =>
        cases forceReload with
        | false =>
          obtain ⟨-, rfl⟩ := Prod.mk.inj h
          exact plain
        | true =>
          rcases reloadBird_cases f.reload u with ⟨-, hs⟩ | ⟨e, -, hs⟩
          all_goals
            obtain ⟨-, rfl⟩ := Prod.mk.inj (h.symm.trans hs)
            exact plain.congr rfl

/-- A sync makes no directory elsewhere. -/
lemma Plain.synced (plain : Plain s)
    (h : BirdFiles.syncBirdConfigsFor localAsn f peers forceReload s = (r, s')) : Plain s' := by
  rcases ensureBirdLayout_cases f s with ⟨-, hl⟩ | ⟨-, e, u, hl, hu⟩
  · rw [BirdFiles.syncBirdConfigsFor, bind_ok hl] at h
    cases hd : desiredGeneration localAsn peers with
    | error error =>
      simp only [hd] at h
      obtain ⟨-, rfl⟩ := Prod.mk.inj h
      exact plain.laidOut
    | ok desired =>
      simp only [hd] at h
      exact Plain.syncDesired plain.laidOut rfl h
  · obtain ⟨-, rfl⟩ := Prod.mk.inj (h.symm.trans (bind_error hl))
    rcases hu with rfl | rfl | rfl
    · exact plain
    · exact plain.withEmpty
    · exact plain.laidOut

/-- A run of the calls is one answer of the sync that the other functions of the manager call. -/
theorem calls_answer (cfg : ManagerWorld.Config) (w : ManagerWorld.World) (plain : Plain (root d))
    (valid : BirdRefinement.Valid (root d)) (same : w.bird = (root d).bird)
    (run : Ends exec P d (syncBirdConfigsFor cfg.localAsn pid peers forceReload).run r d') :
    Plain (root d') ∧ BirdRefinement.Valid (root d') ∧ ∃ o,
      ManagerWorld.exec cfg o (.io (.syncBirdFiles peers forceReload)) w =
        some (r, { w with bird := (root d').bird }) := by
  obtain ⟨f, hf⟩ := (simulates_syncBirdConfigsFor plain).ends run
  obtain ⟨r', s', hs, valid', refines⟩ :=
    @BirdRefinement.sync_refines _ cfg.localAsn f peers forceReload valid
  obtain ⟨rfl, rfl⟩ := Prod.mk.inj (hf.symm.trans hs)
  refine ⟨plain.synced hf, valid', ?_⟩
  rcases refines with ⟨hsync, -⟩ | ⟨e, failure, rfl, hfailed, -⟩
  · refine ⟨.ok, ?_⟩
    simp [ManagerWorld.exec, ManagerWorld.effect, same, hsync]
  · refine ⟨.birdFails failure e, ?_⟩
    simp [ManagerWorld.exec, same, hfailed]

/-- The files before the first start are as the theorem asks. -/
example : Plain (root ⟨⟨∅, ∅⟩, ∅⟩) ∧ BirdRefinement.Valid (root ⟨⟨∅, ∅⟩, ∅⟩) :=
  ⟨fun path there => by simp at there, fun target linked => by simp [root] at linked, rfl⟩

end Levels

end Autopeer.BirdCallRefinement
