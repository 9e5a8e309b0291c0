import Autopeer.BirdCalls
import Autopeer.BirdFilesSteps
import Autopeer.LinkPublication
import Autopeer.ProgramPool
import Autopeer.TransitionRuns

/-! `current` is never partial: calls of `sync_bird_configs_for`, one after the other under their
lock, each of which may fail or be killed between any two of its steps. -/
namespace Autopeer.CurrentLink
open PeerData ProgramTree ProgramPool TransitionRuns BirdGeneration LinkedDirectories LinkPublication
open BirdCalls
open BirdFiles (emptyPath generationName generationPath)
open BirdFilesSteps (insertMany_toList)

/-- The files that one call wants, or none in the empty generation. -/
def Complete (localAsn : UInt32) (calls : List (List Peer)) (dir : String) (files : Files) : Prop :=
  dir = emptyPath ∧ confFiles files = ∅ ∨
    ∃ peers ∈ calls, desiredGeneration localAsn peers = .ok (confFiles files)

def currentLink (localAsn : UInt32) (calls : List (List Peer)) : Publication where
  link := "current"
  base := emptyPath
  Whole := Complete localAsn calls
  base_empty := .inl ⟨rfl, confFiles_empty⟩

/-- The rules of a publication, for the calls on the files. -/
def discipline (P : Publication) : Discipline BirdCall BirdAnswer Knowledge where
  rest := {}
  allowed
    | k, .file e => P.Allows k e
    | _, _ => True
  answer _ _ _ := True
  next
    | k, .file e, r => P.next k e r
    | k, _, _ => k

section Programs
variable {α : Type} {P : Publication} {k : Knowledge} {A : Knowledge → α → Prop} {e : Call}

lemma follows_call {B : Knowledge → Except PeerError (Value e) → Prop} {path : String}
    (allows : P.Allows k e) (h : ∀ r, B (P.next k e r) (context path r)) :
    Follows (discipline P) (fileCall e path).run k B := ⟨allows, fun r _ => h r⟩

lemma follows_fileCall {A : Knowledge → Value e → Prop} {path : String} (allows : P.Allows k e)
    (h : ∀ v, A (P.next k e (.ok v)) v) : Follows (discipline P) (fileCall e path).run k (OnOk A) := by
  refine follows_call allows fun r => ?_
  cases r with
  | ok v => exact h v
  | error source => trivial

lemma follows_rawCall {A : Knowledge → Answer e → Prop} (allows : P.Allows k e)
    (h : ∀ r, A (P.next k e r) r) : Follows (discipline P) (rawCall e).run k (OnOk A) :=
  ⟨allows, fun r _ => h r⟩

lemma follows_uniqueSuffix {A : Knowledge → ℕ → Prop} (h : ∀ suffix, A k suffix) :
    Follows (discipline P) uniqueSuffix.run k (OnOk A) := ⟨trivial, fun suffix _ => h suffix⟩

lemma follows_attempt {x : BirdAction α} {B : Knowledge → Except PeerError α → Prop}
    (h : Follows (discipline P) x.run k B) :
    Follows (discipline P) (attempt x).run k (OnOk B) := Follows.attempt h

lemma follows_reload {B : Knowledge → Except PeerError Unit → Prop} (h : ∀ r, B k r) :
    Follows (discipline P) reloadBird.run k B := ⟨trivial, fun r _ => h r⟩

lemma follows_throw {error : PeerError} :
    Follows (discipline P) (throw error : BirdAction α).run k (OnOk A) := trivial

lemma follows_pure {a : α} (h : A k a) :
    Follows (discipline P) (pure a : BirdAction α).run k (OnOk A) := h

lemma follows_syncDirectory {A : Knowledge → Unit → Prop} {path : String} (h : A k ()) :
    Follows (discipline P) (syncDirectory path).run k (OnOk A) := by
  apply Follows.andThen (A := fun k' _ => k' = k)
  · exact follows_fileCall trivial fun _ => rfl
  · rintro k' - rfl
    exact follows_fileCall trivial fun _ => h

/-- A directory that the link may lead to. -/
def MayPublish (P : Publication) (k : Knowledge) (dir : String) : Prop :=
  dir ∈ k.whole ∨ ∃ files, k.building = some (dir, files) ∧ P.Whole dir files

/-- A switch that ends well has put the link on the target. -/
lemma follows_atomicSwitchCurrent {A : Knowledge → Unit → Prop} {target : String}
    (hP : P.link = "current") (may : MayPublish P k target)
    (h : A { building := none, whole := target :: k.whole, staged := none, current := some target } ()) :
    Follows (discipline P) (atomicSwitchCurrent target).run k (OnOk A) := by
  apply Follows.andThen (A := fun k' _ => k' = k)
  · exact follows_uniqueSuffix fun _ => rfl
  · rintro k' suffix rfl
    apply Follows.andThen (A := fun k _ => k = { k' with
      building := none, whole := target :: k'.whole
      staged := some (".current." ++ toString suffix ++ ".tmp", target) })
    · refine follows_fileCall ⟨?_, may⟩ fun _ => rfl
      rw [hP]
      exact temporary_ne_current suffix
    · rintro k - rfl
      have renames : P.Allows
          { k' with
            building := none, whole := target :: k'.whole
            staged := some (".current." ++ toString suffix ++ ".tmp", target) }
          (.renameLink (".current." ++ toString suffix ++ ".tmp") "current") := ⟨hP.symm, target, rfl⟩
      apply Follows.andThen (A := fun k r => ∀ v, r = .ok v →
        k = { building := none, whole := target :: k'.whole, staged := none, current := some target })
      · apply follows_attempt
        apply follows_call renames
        intro r v hr
        cases r with
        | ok _ => rfl
        | error source => cases hr
      · intro k r hr
        cases r with
        | ok v =>
          obtain rfl := hr v rfl
          exact follows_syncDirectory h
        | error error =>
          exact Follows.andThen (A := fun _ _ => True)
            (Follows.andThen (follows_rawCall (A := fun _ _ => True) trivial fun _ => trivial)
              fun _ _ _ => follows_pure trivial) fun _ _ _ => follows_throw

lemma follows_ignore (allows : P.Allows k e) {A : Knowledge → Unit → Prop}
    (h : ∀ r, A (P.next k e r) ()) : Follows (discipline P) (ignore e).run k (OnOk A) := by
  apply Follows.andThen (A := fun k _ => A k ())
  · exact follows_rawCall allows h
  · exact fun k _ hk => follows_pure hk

end Programs

section Sync
variable {localAsn : UInt32} {calls : List (List Peer)} {k : Knowledge}

lemma follows_ensureBirdLayout :
    Follows (discipline (currentLink localAsn calls)) ensureBirdLayout.run k (OnOk fun _ _ => True) := by
  apply Follows.andThen (A := fun k _ => emptyPath ∈ k.whole)
  · exact follows_fileCall rfl fun _ => List.mem_cons_self
  · intro k _ hk
    apply Follows.andThen (A := fun k _ => emptyPath ∈ k.whole)
    · exact follows_rawCall trivial fun _ => hk
    · intro k r hk
      cases r with
      | ok v => exact follows_pure trivial
      | error source =>
        cases source with
        | notFound => exact follows_atomicSwitchCurrent rfl (.inl hk) trivial
        | alreadyExists => exact follows_throw
        | other text => exact follows_throw

/-- Only what is read from `current` counts, and it changes nothing. -/
lemma follows_readGeneration {path : String} {names : List String} {actual : Generation} :
    Follows (discipline (currentLink localAsn calls)) (readGeneration path actual names).run k
      (OnOk fun _ _ => True) := by
  induction names generalizing actual k with
  | nil =>
    exact Follows.andThen (A := fun _ _ => True) (follows_fileCall trivial fun _ => trivial)
      fun _ _ _ => follows_pure trivial
  | cons name names ih =>
    apply Follows.andThen (A := fun _ _ => True)
    · exact follows_fileCall trivial fun _ => trivial
    · intro k _ _
      split
      · exact Follows.andThen (A := fun _ _ => True) (follows_fileCall trivial fun _ => trivial)
          fun _ _ _ => ih
      · exact ih

lemma follows_generationMatches {path : String} {desired : Generation} :
    Follows (discipline (currentLink localAsn calls)) (generationMatches path desired).run k
      (OnOk fun _ _ => True) := by
  apply Follows.andThen (A := fun _ _ => True)
  · exact follows_rawCall trivial fun _ => trivial
  · intro k r _
    cases r with
    | ok names => exact Follows.andThen follows_readGeneration fun _ _ _ => trivial
    | error source => cases source <;> trivial

section Prepare
variable {dir : String} {conf : Generation}

/-- A program that fills `dir` has put these `.conf` files there. -/
def Filled (dir : String) (conf : Generation) (k : Knowledge) : Prop :=
  ∃ files, k.building = some (dir, files) ∧ confFiles files = conf

lemma follows_writeAtomic {pid : ℕ} {name content : String} (filled : Filled dir conf k)
    (isConf : name.endsWith ".conf" = true) :
    Follows (discipline (currentLink localAsn calls)) (writeAtomic pid dir name content).run k
      (OnOk fun k _ => Filled dir (conf.insert name content) k) := by
  obtain ⟨files, hb, rfl⟩ := filled
  apply Follows.andThen (A := fun k _ => k.building = some (dir, files))
  · exact follows_uniqueSuffix fun _ => hb
  intro k suffix hb
  have other := temporaryName_conf pid suffix name
  generalize temporaryName pid suffix name = temporary at other
  apply Follows.andThen (A := fun k _ => k.building = some (dir, files))
  · exact follows_fileCall trivial fun _ => hb
  intro k permissions hb
  apply Follows.andThen (A := fun k _ => k.building = some (dir, files.insert temporary ""))
  · refine follows_fileCall ⟨files, hb⟩ fun _ => ?_
    simp [Publication.next, Knowledge.edit, hb, opened]
  intro k _ hb
  -- Everything is in the file before it gets its name.
  have written : ∀ k : Knowledge, k.building =
      some (dir, (files.insert temporary "").insert temporary content) →
      Follows (discipline (currentLink localAsn calls))
        (fileCall (.renameFile dir temporary name) (dir ++ "/" ++ name)).run k
        (OnOk fun k _ => Filled dir ((confFiles files).insert name content) k) := by
    intro k hb
    refine follows_fileCall ⟨_, hb⟩ fun _ => ⟨(((files.insert temporary "").insert temporary
      content).erase temporary).insert name content, ?_, ?_⟩
    · simp [Publication.next, Knowledge.edit, hb, renamed]
    · rw [confFiles_insert isConf, confFiles_erase_other other, confFiles_insert_other other,
        confFiles_insert_other other]
  apply Follows.andThen (A := fun k _ =>
    k.building = some (dir, (files.insert temporary "").insert temporary content))
  · refine follows_fileCall ⟨_, hb⟩ fun _ => ?_
    simp [Publication.next, Knowledge.edit, hb, LinkedDirectories.written]
  intro k _ hb
  apply Follows.andThen (A := fun k _ =>
    k.building = some (dir, (files.insert temporary "").insert temporary content))
  · exact follows_fileCall trivial fun _ => hb
  intro k _ hb
  apply Follows.andThen (A := fun k _ =>
    k.building = some (dir, (files.insert temporary "").insert temporary content))
  · exact follows_fileCall trivial fun _ => hb
  intro k _ hb
  apply Follows.andThen (A := fun k _ =>
    k.building = some (dir, (files.insert temporary "").insert temporary content))
  · exact follows_fileCall trivial fun _ => hb
  intro k _ hb
  exact written k hb

/-- After each file the directory holds the files that came before it in the list. -/
lemma follows_writeFiles {pid : ℕ} {files : List (String × String)} (filled : Filled dir conf k)
    (names : ∀ file ∈ files, file.1.endsWith ".conf" = true) :
    Follows (discipline (currentLink localAsn calls))
      (files.forM fun file => writeAtomic pid dir file.1 file.2).run k
      (OnOk fun k _ => Filled dir (conf.insertMany files) k) := by
  induction files generalizing conf k with
  | nil => exact filled
  | cons file files ih =>
    apply Follows.andThen (x := writeAtomic pid dir file.1 file.2)
    · exact follows_writeAtomic filled (names file (by simp))
    · intro k _ filled
      rw [Std.ExtTreeMap.insertMany_cons]
      exact ih filled fun other hm => names other (by simp [hm])

lemma follows_prepareGeneration {pid : ℕ} {desired : Generation} (hne : dir ≠ emptyPath)
    (names : ∀ file ∈ desired.toList, file.1.endsWith ".conf" = true) :
    Follows (discipline (currentLink localAsn calls)) (prepareGeneration pid dir desired).run k
      (OnOk fun k _ => Filled dir desired k) := by
  apply Follows.andThen (A := fun k _ => Filled dir ∅ k)
  · exact follows_fileCall hne fun _ => ⟨∅, rfl, confFiles_empty⟩
  · intro k _ empty
    have all := @follows_writeFiles localAsn calls _ dir ∅ pid _ empty names
    rw [insertMany_toList] at all
    exact all.andThen fun k _ filled => follows_syncDirectory filled

end Prepare

section Install
variable {suffix : ℕ} {name : String}

lemma follows_removeEntry {entry : String} (current : k.current = some ("generations/" ++ name)) :
    Follows (discipline (currentLink localAsn calls)) (removeEntry name entry).run k
      (OnOk fun k _ => k.current = some ("generations/" ++ name)) := by
  unfold removeEntry
  split
  · exact follows_pure current
  · rename_i keep
    push Not at keep
    obtain ⟨notEmpty, notCurrent, -⟩ := keep
    have allows : (currentLink localAsn calls).Allows k (.removeDirAll ("generations/" ++ entry)) := by
      refine ⟨fun heq => notEmpty ?_, _, current, fun heq => notCurrent ?_⟩
      · exact String.append_right_inj "generations/" |>.mp (heq.trans rfl)
      · exact String.append_right_inj "generations/" |>.mp heq
    exact follows_ignore allows fun _ => current

/-- The directory that `current` leads to stays, whatever the directory read returns. -/
lemma follows_removeEntries {names : List String}
    (current : k.current = some ("generations/" ++ name)) :
    Follows (discipline (currentLink localAsn calls)) (removeEntries name names).run k
      (OnOk fun _ _ => True) := by
  have next : (currentLink localAsn calls).Allows k (.nextEntry "generations") := trivial
  induction names generalizing k with
  | nil => exact follows_ignore next fun _ => trivial
  | cons entry names ih =>
    apply Follows.andThen (A := fun k _ => k.current = some ("generations/" ++ name))
    · exact follows_rawCall next fun _ => current
    intro k r current
    cases r with
    | error source => exact follows_pure trivial
    | ok _ => exact (follows_removeEntry current).andThen fun k _ hk => ih hk trivial

lemma follows_removeOldGenerations (current : k.current = some ("generations/" ++ name)) :
    Follows (discipline (currentLink localAsn calls)) (removeOldGenerations name).run k
      (OnOk fun _ _ => True) := by
  apply Follows.andThen (A := fun k _ => k.current = some ("generations/" ++ name))
  · exact follows_rawCall trivial fun _ => current
  · intro k r current
    cases r with
    | error source => exact follows_pure trivial
    | ok names => exact follows_removeEntries current

/-- The former target was whole when it was read, and nothing has touched it since. -/
lemma follows_rollBack {oldTarget : Option String} {reloadError : PeerError}
    (old : ∀ target, oldTarget = some target → target ∈ k.whole) :
    Follows (discipline (currentLink localAsn calls)) (rollBack oldTarget reloadError).run k
      (OnOk fun _ _ => True) := by
  apply Follows.andThen (A := fun _ _ => True)
  · apply follows_attempt
    have restored : Follows (discipline (currentLink localAsn calls)) (restoreCurrent oldTarget).run k
        (OnOk fun _ _ => True) := by
      cases oldTarget with
      | some target => exact follows_atomicSwitchCurrent rfl (.inl (old target rfl)) trivial
      | none =>
        apply Follows.andThen (A := fun _ _ => True)
        · exact follows_rawCall trivial fun _ => trivial
        · intro k r _
          cases r with
          | ok _ => exact follows_pure trivial
          | error source => cases source <;> trivial
    exact restored.mono fun _ _ _ => trivial
  · intro k r _
    cases r with
    | error restoreError => exact follows_throw
    | ok _ =>
      exact Follows.andThen (A := fun _ _ => True) (follows_attempt (follows_reload fun _ => trivial))
        fun _ _ _ => follows_throw

lemma follows_installGeneration {conf : Generation} (filled : Filled (generationPath suffix) conf k)
    (complete : ∃ peers ∈ calls, desiredGeneration localAsn peers = .ok conf) :
    Follows (discipline (currentLink localAsn calls)) (installGeneration suffix).run k
      (OnOk fun _ _ => True) := by
  apply Follows.andThen (A := fun k r => Filled (generationPath suffix) conf k ∧
    ∀ target, r.toOption = some target → target ∈ k.whole)
  · refine follows_rawCall trivial fun r => ?_
    cases r with
    | error source => exact ⟨filled, by simp [Except.toOption]⟩
    | ok target => exact ⟨filled, by simp [Publication.next, currentLink, Except.toOption]⟩
  rintro k r ⟨⟨files, hb, hconf⟩, old⟩
  have may : MayPublish (currentLink localAsn calls) k (generationPath suffix) :=
    .inr ⟨files, hb, .inr (hconf ▸ complete)⟩
  apply Follows.andThen (A := fun k _ => k.current = some (generationPath suffix) ∧
    ∀ target, r.toOption = some target → target ∈ k.whole)
  · exact follows_atomicSwitchCurrent rfl may
      ⟨rfl, fun target hr => List.mem_cons_of_mem _ (old target hr)⟩
  intro k _ known
  apply Follows.andThen (A := fun k _ => k.current = some (generationPath suffix) ∧
    ∀ target, r.toOption = some target → target ∈ k.whole)
  · exact follows_attempt (follows_reload fun _ => known)
  · intro k result known
    cases result with
    | error reloadError => exact follows_rollBack known.2
    | ok _ => exact follows_removeOldGenerations known.1

end Install

lemma generationPath_ne_empty (suffix : ℕ) : generationPath suffix ≠ emptyPath := by
  intro h
  have hs := congrArg String.toList h
  simp [generationPath, generationName, emptyPath] at hs

lemma rendering_conf {peers : List Peer} :
    ∀ file ∈ (rendering localAsn peers).toList, file.1.endsWith ".conf" = true := by
  intro file hm
  rw [Std.ExtTreeMap.mem_toList_iff_getElem?_eq_some] at hm
  by_contra hconf
  have none : ∀ p ∈ peers.filter Peer.enabled, confName p ≠ file.1 := by
    intro p _ heq
    apply hconf
    rw [← heq, confName, endsWith_iff, String.toList_append]
    exact List.suffix_append _ _
  rw [rendering, renderAll_get_of_notMem none] at hm
  simp at hm

/-- A call knows enough of the tree before each of its steps. -/
theorem follows_syncBirdConfigsFor {pid : ℕ} {peers : List Peer} {forceReload : Bool}
    (called : peers ∈ calls) :
    Follows (discipline (currentLink localAsn calls))
      (syncBirdConfigsFor localAsn pid peers forceReload).run k (OnOk fun _ _ => True) := by
  apply Follows.andThen (A := fun _ _ => True)
  · exact follows_ensureBirdLayout
  intro k _ _
  cases hd : desiredGeneration localAsn peers with
  | error error => exact follows_throw
  | ok desired =>
    apply Follows.andThen (A := fun _ _ => True)
    · exact follows_generationMatches
    intro k same _
    cases same with
    | true =>
      cases forceReload with
      | true => exact follows_reload fun r => by cases r <;> trivial
      | false => exact follows_pure trivial
    | false =>
      apply Follows.andThen (A := fun _ _ => True)
      · exact follows_uniqueSuffix fun _ => trivial
      intro k suffix _
      have names : ∀ file ∈ desired.toList, file.1.endsWith ".conf" = true := by
        obtain ⟨-, rfl⟩ := desiredGeneration_inv hd
        exact rendering_conf
      refine (follows_prepareGeneration (generationPath_ne_empty suffix) names).andThen
        fun k _ filled => follows_installGeneration filled ⟨peers, called, hd⟩

end Sync

section System
variable (localAsn : UInt32)

/-- The files, the peers lists of the calls so far, and the call that runs, if any. -/
structure System where
  disk : BirdDisk
  calls : List (List Peer)
  running : Option (Program BirdCall BirdAnswer (Except PeerError Unit))

inductive Label
  /-- A call gets the lock; the process may be another one than before. -/
  | call (pid : ℕ) (peers : List Peer) (forceReload : Bool)
  | step (outcome : BirdOutcome)
  /-- The call ends here, or the process does. -/
  | kill

/-- No call holds the lock. -/
def System.idle (s : System) : Bool :=
  match s.running with
  | some (.call _ _) => false
  | _ => true

def step : Label → System → Option System
  | .call pid peers forceReload, s =>
    if s.idle then
      some { s with
        calls := peers :: s.calls
        running := some (syncBirdConfigsFor localAsn pid peers forceReload).run }
    else none
  | .step o, s =>
    match s.running with
    | some (.call e next) =>
      (exec o e s.disk).map fun a => { s with disk := a.2, running := some (next a.1) }
    | _ => none
  | .kill, s => some { s with running := none }

/-- The files before the first call: `current` is missing or leads to the empty generation. -/
structure Fresh (t : Tree) : Prop where
  current : t.links["current"]? = none ∨
    t.links["current"]? = some emptyPath ∧ (t.directories[emptyPath]?).isSome
  empty : ∀ files, t.directories[emptyPath]? = some files → confFiles files = ∅

def System.start (disk : BirdDisk) : System := ⟨disk, [], none⟩

variable {localAsn} {s s' : System}

lemma Complete.more {calls : List (List Peer)} {peers : List Peer} {dir : String} {files : Files}
    (h : Complete localAsn calls dir files) : Complete localAsn (peers :: calls) dir files := by
  rcases h with h | ⟨called, hm, h⟩
  · exact .inl h
  · exact .inr ⟨called, List.mem_cons_of_mem _ hm, h⟩

lemma sound_more {calls : List (List Peer)} {peers : List Peer} {t : Tree} {k : Knowledge}
    (h : (currentLink localAsn calls).Sound t k) :
    (currentLink localAsn (peers :: calls)).Sound t k := by
  have stands : ∀ dir, (currentLink localAsn calls).Stands t dir →
      (currentLink localAsn (peers :: calls)).Stands t dir := by
    rintro dir ⟨files, hd, hw⟩
    exact ⟨files, hd, hw.more⟩
  exact ⟨fun dir hd => stands dir (h.published dir hd), fun files hf => (h.base files hf).more,
    fun dir hd => stands dir (h.whole dir hd), h.building, h.staged, h.current⟩

/-- The running call knows what the rules of the publication ask for. -/
def Guarded (localAsn : UInt32) (s : System) : Prop :=
  ∃ k, (currentLink localAsn s.calls).Sound s.disk.tree k ∧
    ∀ p, s.running = some p → Follows (discipline (currentLink localAsn s.calls)) p k (OnOk fun _ _ => True)

lemma start_guarded {disk : BirdDisk} (fresh : Fresh disk.tree) :
    Guarded localAsn (System.start disk) := by
  refine ⟨{}, ⟨?_, fun files hf => .inl ⟨rfl, fresh.empty files hf⟩, by simp, by simp, by simp,
    by simp⟩, by simp [System.start]⟩
  intro dir hd
  rcases fresh.current with missing | ⟨linked, there⟩
  · cases hd.symm.trans missing
  · obtain rfl : dir = emptyPath := Option.some.inj (hd.symm.trans linked)
    obtain ⟨files, hf⟩ := Option.isSome_iff_exists.mp there
    exact ⟨files, hf, .inl ⟨rfl, fresh.empty files hf⟩⟩

lemma step_guarded {l : Label} (h : Guarded localAsn s) (hs : step localAsn l s = some s') :
    Guarded localAsn s' := by
  obtain ⟨k, sound, follows⟩ := h
  cases l with
  | call pid peers forceReload =>
    obtain ⟨-, hs⟩ := Option.ite_none_right_eq_some.mp hs
    obtain rfl := Option.some.inj hs
    refine ⟨k, sound_more sound, fun p hp => ?_⟩
    obtain rfl := Option.some.inj hp
    exact follows_syncBirdConfigsFor List.mem_cons_self
  | kill =>
    obtain rfl := Option.some.inj hs
    exact ⟨{}, sound.stopped, by simp⟩
  | step o =>
    simp only [step] at hs
    split at hs
    · rename_i e next running
      obtain ⟨allows, continues⟩ := follows _ running
      obtain ⟨⟨r, d⟩, hx, rfl⟩ := Option.map_eq_some_iff.mp hs
      refine ⟨(discipline (currentLink localAsn s.calls)).next k e r, ?_, fun p hp => ?_⟩
      · cases e with
        | file e =>
          obtain ⟨⟨r, t⟩, ht, ha⟩ := Option.map_eq_some_iff.mp hx
          obtain ⟨rfl, rfl⟩ := Prod.mk.inj ha
          exact sound.exec allows ht
        | uniqueSuffix =>
          obtain ⟨-, rfl⟩ := Prod.mk.inj (Option.some.inj hx)
          exact sound
        | reloadBird =>
          simp only [BirdCalls.exec] at hx
          split at hx <;>
          · obtain ⟨-, rfl⟩ := Prod.mk.inj (Option.some.inj hx)
            exact sound
      · obtain rfl := Option.some.inj hp
        exact continues r trivial
    · cases hs

/-- Wherever calls are cut or fail, `current` leads to a directory with all the files of one call, or
to the empty generation. -/
theorem current_complete {disk : BirdDisk} (fresh : Fresh disk.tree)
    (h : Reaches (step localAsn) (fun _ _ => True) (System.start disk) s) {target : String}
    (linked : s.disk.tree.links["current"]? = some target) :
    ∃ files, s.disk.tree.directories[target]? = some files ∧
      (target = emptyPath ∧ confFiles files = ∅ ∨
        ∃ peers ∈ s.calls, desiredGeneration localAsn peers = .ok (confFiles files)) := by
  obtain ⟨k, sound, -⟩ := h.invariant (start_guarded fresh) fun _ _ _ hu _ hn => step_guarded hu hn
  exact sound.published target linked

end System

section Sample

def samplePeer (asn : UInt32) : Peer :=
  { peerId := 1, peerName := "r1", ifaceName := "wgp1", asn, pubkey := ⟨"key"⟩,
    endpoint := none, localLlIp := ⟨0xfe80, 0, 0, 0, 0, 0, 0, 1⟩,
    remoteLlIp := ⟨0xfe80, 0, 0, 0, 0, 0, 0, 2⟩, status := .active, listenPort := 21111, mtu := 1420 }

/-- A step at time `suffix` that works; a directory is read in this order. -/
def works (suffix : ℕ) (entries : List String) : Label :=
  .step ⟨⟨none, entries, 0o755, "", []⟩, suffix, none⟩

/-- A step that is refused; a write leaves a part of its text. -/
def refused : Label := .step ⟨⟨some "No space left on device (os error 28)", [], 0, "# Dyn", []⟩, 0, none⟩

/-- A call is killed right after it has put `current` on its generation. The next one is refused a
write to its own. -/
def cutRun : List Label :=
  [.call 1 [samplePeer 4242421111] false] ++ List.replicate 25 (works 5 []) ++ [.kill,
    .call 2 [samplePeer 4242422222] false] ++ List.replicate 10 (works 7 ["wgp1.conf"]) ++
    [refused, .kill]

/-- In between `current` stays on the files of the first call. -/
theorem current_complete_cut : ∃ s, Reaches (step 4242420000) (fun _ _ => True)
    (System.start ⟨⟨∅, ∅⟩, ∅⟩) s ∧ s.disk.tree.links["current"]? = some (generationPath 5) ∧
    (s.disk.tree.directories[generationPath 7]?).isSome ∧
    ∃ files, s.disk.tree.directories[generationPath 5]? = some files ∧
      (generationPath 5 = emptyPath ∧ confFiles files = ∅ ∨
        ∃ peers ∈ s.calls, desiredGeneration 4242420000 peers = .ok (confFiles files)) := by
  have run : (steps (step 4242420000) cutRun (System.start ⟨⟨∅, ∅⟩, ∅⟩)).map (fun s =>
      (s.disk.tree.links["current"]?, (s.disk.tree.directories[generationPath 7]?).isSome)) =
        some (some (generationPath 5), true) := by
    decide +kernel
  obtain ⟨s, hs, hview⟩ := Option.map_eq_some_iff.mp run
  obtain ⟨linked, building⟩ := Prod.mk.inj hview
  have reached := steps_reaches (P := fun _ _ => True) (Schedule.of_forall fun _ _ _ => trivial) hs
  have fresh : Fresh (⟨∅, ∅⟩ : Tree) := ⟨.inl (by simp), by simp⟩
  exact ⟨s, reached, linked, building, current_complete fresh reached linked⟩

end Sample

end Autopeer.CurrentLink
