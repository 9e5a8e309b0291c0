import Autopeer.BirdCalls
import Autopeer.LinkPublication
import Autopeer.ProgramTriples

/-! What the first parts of `sync_bird_configs_for` do to the files, whichever of their calls are
refused. -/
namespace Autopeer.BirdTriples
open PeerData ProgramTree ProgramTriples BirdGeneration LinkPublication BirdCalls
open LinkedDirectories hiding exec
open BirdFiles (emptyPath)

section Calls
variable {P : BirdCall → BirdOutcome → Prop} {C : BirdCall → Prop} {d : BirdDisk} {e : Call}
  {path : String}

lemma must_fileCall {Q : Except PeerError (Value e) → BirdDisk → Prop} (c : C (.file e))
    (h : ∀ o r t, P (.file e) o → LinkedDirectories.exec o.file e d.tree = some (r, t) →
      Q (context path r) { d with tree := t }) : Must exec P C (fileCall e path).run d Q := by
  refine ⟨c, fun o r d' ho hx => ?_⟩
  obtain ⟨⟨r', t⟩, ht, hr⟩ := Option.map_eq_some_iff.mp hx
  obtain ⟨rfl, rfl⟩ := Prod.mk.inj hr
  exact h o _ t ho ht

lemma must_rawCall {Q : Except PeerError (Answer e) → BirdDisk → Prop} (c : C (.file e))
    (h : ∀ o r t, P (.file e) o → LinkedDirectories.exec o.file e d.tree = some (r, t) →
      Q (.ok r) { d with tree := t }) : Must exec P C (rawCall e).run d Q := by
  refine ⟨c, fun o r d' ho hx => ?_⟩
  obtain ⟨⟨r', t⟩, ht, hr⟩ := Option.map_eq_some_iff.mp hx
  obtain ⟨rfl, rfl⟩ := Prod.mk.inj hr
  exact h o _ t ho ht

lemma must_ignore {Q : Except PeerError Unit → BirdDisk → Prop} (c : C (.file e))
    (h : ∀ o r t, P (.file e) o → LinkedDirectories.exec o.file e d.tree = some (r, t) →
      Q (.ok ()) { d with tree := t }) : Must exec P C (ignore e).run d Q := by
  apply Must.bind (A := fun r d' => (∃ a, r = .ok a) ∧ Q (.ok ()) d')
  · exact must_rawCall c fun o r t ho hx => ⟨⟨r, rfl⟩, h o r t ho hx⟩
  · exact fun _ _ hq => hq.2
  · rintro error v ⟨⟨a, ha⟩, -⟩
    cases ha

lemma must_uniqueSuffix {Q : Except PeerError ℕ → BirdDisk → Prop} (c : C .uniqueSuffix)
    (h : ∀ suffix, Q (.ok suffix) d) : Must exec P C uniqueSuffix.run d Q := by
  refine ⟨c, fun o r d' _ hx => ?_⟩
  obtain ⟨rfl, rfl⟩ := Prod.mk.inj (Option.some.inj hx)
  exact h _

/-- A reload changes only what BIRD has loaded. -/
lemma must_reloadBird {Q : Except PeerError Unit → BirdDisk → Prop} (c : C .reloadBird)
    (h : ∀ r d', d'.tree = d.tree → Q r d') : Must exec P C reloadBird.run d Q := by
  refine ⟨c, fun o r d' _ hx => ?_⟩
  simp only [exec] at hx
  split at hx
  · obtain ⟨rfl, rfl⟩ := Prod.mk.inj (Option.some.inj hx)
    exact h _ d rfl
  · obtain ⟨rfl, rfl⟩ := Prod.mk.inj (Option.some.inj hx)
    exact h _ d.load rfl

/-- A call that only looks. -/
lemma must_looks {Q : Except PeerError (Value e) → BirdDisk → Prop} (c : C (.file e))
    (hl : e.looks = true) (h : ∀ r, Q r d) : Must exec P C (fileCall e path).run d Q :=
  must_fileCall c fun o r t _ hx => by
    rw [exec_looks hl hx]
    exact h _

end Calls

section Layout
variable {P : BirdCall → BirdOutcome → Prop} {d d' : BirdDisk} {target path : String}

lemma must_syncDirectory {Q : Except PeerError Unit → BirdDisk → Prop} (h : ∀ r, Q r d) :
    Must exec P (fun _ => True) (syncDirectory path).run d Q := by
  apply Must.bind (A := fun _ d' => d' = d)
  · exact must_looks trivial rfl fun _ => rfl
  · rintro _ v rfl
    exact must_looks trivial rfl h
  · rintro _ v rfl
    exact h _

/-- What a switch leaves: `current` is as it was or leads to the target. -/
structure Switched (target : String) (d d' : BirdDisk) : Prop where
  loaded : d'.loaded = d.loaded
  directories : d'.tree.directories = d.tree.directories
  current : d'.tree.links["current"]? = d.tree.links["current"]? ∨
    d'.tree.links["current"]? = some target

theorem must_atomicSwitchCurrent :
    Must exec P (fun _ => True) (atomicSwitchCurrent target).run d fun r d' =>
      Switched target d d' ∧ (r = .ok () → d'.tree.links["current"]? = some target) := by
  apply Must.bind (A := fun _ d' => d' = d)
  · exact must_uniqueSuffix trivial fun _ => rfl
  · rintro suffix v rfl
    have other := temporary_ne_current suffix
    simp only
    generalize ".current." ++ toString suffix ++ ".tmp" = temporary at other
    apply Must.bind (A := fun r d' => (∃ error, r = .error error) ∧ d' = v ∨
      r = .ok () ∧ d' = { v with tree := v.tree.putLink temporary target })
    · refine must_fileCall trivial fun o r t _ hx => ?_
      rcases symlink_effect hx with ⟨⟨source, rfl⟩, rfl⟩ | ⟨rfl, rfl⟩
      · exact .inl ⟨⟨_, rfl⟩, rfl⟩
      · exact .inr ⟨rfl, rfl⟩
    · rintro _ d₁ (⟨⟨error, herror⟩, -⟩ | ⟨-, rfl⟩)
      · cases herror
      have staged : (v.tree.putLink temporary target).links["current"]? = v.tree.links["current"]? := by
        rw [putLink_links, if_neg other]
      apply Must.bind (A := fun r d' =>
        (∃ error, r = .ok (.error error)) ∧ d' = { v with tree := v.tree.putLink temporary target } ∨
          r = .ok (.ok ()) ∧ d' = { v with tree :=
            ((v.tree.putLink temporary target).removeLink temporary).putLink "current" target })
      · refine Must.attempt (must_fileCall trivial fun o r t _ hx => ?_)
        have linked : (v.tree.putLink temporary target).links[temporary]? = some target := by
          rw [putLink_links, if_pos rfl]
        rcases renameLink_effect linked hx with ⟨⟨source, rfl⟩, rfl⟩ | ⟨rfl, rfl⟩
        · exact .inl ⟨⟨_, rfl⟩, rfl⟩
        · exact .inr ⟨rfl, rfl⟩
      · rintro _ d₂ (⟨⟨error, h⟩, rfl⟩ | ⟨h, rfl⟩)
        · obtain rfl := Except.ok.inj h
          apply Must.bind (A := fun _ d' => Switched target v d')
          · refine must_ignore trivial fun o r t _ hx => ?_
            rcases removeFile_effect hx with ⟨-, rfl⟩ | ⟨-, -, rfl⟩ | ⟨-, rfl⟩
            · exact ⟨rfl, rfl, .inl staged⟩
            · exact ⟨rfl, rfl, .inl staged⟩
            · refine ⟨rfl, rfl, .inl ?_⟩
              rw [removeLink_links, if_neg other, staged]
          · exact fun _ d₃ h => ⟨h, by simp⟩
          · exact fun _ d₃ h => ⟨h, by simp⟩
        · obtain rfl := Except.ok.inj h
          have replaced : (((v.tree.putLink temporary target).removeLink temporary).putLink
              "current" target).links["current"]? = some target := by
            rw [putLink_links, if_pos rfl]
          exact must_syncDirectory fun _ => ⟨⟨rfl, rfl, .inr replaced⟩, fun _ => replaced⟩
      · rintro error d₂ (⟨⟨_, h⟩, -⟩ | ⟨h, -⟩) <;> cases h
    · rintro error d₁ (⟨-, rfl⟩ | ⟨h, -⟩)
      · exact ⟨⟨rfl, rfl, .inl rfl⟩, by simp⟩
      · cases h
  · rintro _ v rfl
    exact ⟨⟨rfl, rfl, .inl rfl⟩, by simp⟩

/-- Nothing changes but a missing layout: the empty generation, and `current` on it. -/
structure Laid (d d' : BirdDisk) : Prop where
  loaded : d'.loaded = d.loaded
  directories : ∀ dir, dir ≠ emptyPath → d'.tree.directories[dir]? = d.tree.directories[dir]?
  empty : d'.tree.directories[emptyPath]? = d.tree.directories[emptyPath]? ∨
    d.tree.directories[emptyPath]? = none ∧ d'.tree.directories[emptyPath]? = some ∅
  current : d'.tree.links["current"]? = d.tree.links["current"]? ∨
    d.tree.links["current"]? = none ∧ d'.tree.links["current"]? = some emptyPath

lemma Laid.refl : Laid d d := ⟨rfl, fun _ _ => rfl, .inl rfl, .inl rfl⟩

lemma laid_createDirAll :
    Laid d { d with tree := d.tree.put emptyPath ((d.tree.directories[emptyPath]?).getD ∅) } := by
  refine ⟨rfl, fun dir hne => ?_, ?_, .inl rfl⟩
  · rw [put_directories, if_neg hne.symm]
  · rw [put_directories, if_pos rfl]
    cases d.tree.directories[emptyPath]? with
    | none => exact .inr ⟨rfl, rfl⟩
    | some files => exact .inl rfl

lemma Laid.switched {d₁ : BirdDisk} (h : Laid d d₁) (missing : d₁.tree.links["current"]? = none)
    (hs : Switched emptyPath d₁ d') : Laid d d' := by
  have before : d.tree.links["current"]? = none := by
    rcases h.current with heq | ⟨hnone, -⟩
    · exact heq.symm.trans missing
    · exact hnone
  refine ⟨hs.loaded.trans h.loaded, ?_, ?_, ?_⟩
  · rw [hs.directories]
    exact h.directories
  · rw [hs.directories]
    exact h.empty
  · rcases hs.current with heq | linked
    · exact .inl (heq.trans (missing.trans before.symm))
    · exact .inr ⟨before, linked⟩

/-- The layout is there: a link, and the empty generation. -/
def HasLayout (t : Tree) : Prop :=
  (t.links["current"]?).isSome ∧ (t.directories[emptyPath]?).isSome

theorem must_ensureBirdLayout :
    Must exec P (fun _ => True) ensureBirdLayout.run d fun r d' =>
      Laid d d' ∧ (r = .ok () → HasLayout d'.tree) := by
  apply Must.bind (A := fun r d' => Laid d d' ∧
    (r = .ok () → (d'.tree.directories[emptyPath]?).isSome))
  · refine must_fileCall trivial fun o r t _ hx => ?_
    rcases createDirAll_effect hx with ⟨⟨source, rfl⟩, rfl⟩ | ⟨rfl, rfl⟩
    · exact ⟨.refl, by simp [context]⟩
    · exact ⟨laid_createDirAll, fun _ => by simp [put_directories]⟩
  · rintro _ d₁ ⟨laid, there⟩
    have there := there rfl
    apply Must.bind (A := fun r d' => d' = d₁ ∧
      (r = .ok (.ok ()) → (d₁.tree.links["current"]?).isSome) ∧
      (r = .ok (.error .notFound) → d₁.tree.links["current"]? = none))
    · refine must_rawCall trivial fun o r t _ hx => ?_
      obtain ⟨rfl, hok, hmissing⟩ := symlinkMetadata_effect hx
      exact ⟨rfl, fun h => hok (Except.ok.inj h), fun h => hmissing (Except.ok.inj h)⟩
    · rintro r d₂ ⟨rfl, hok, hmissing⟩
      match r with
      | .ok _ => exact ⟨laid, fun _ => ⟨hok rfl, there⟩⟩
      | .error .notFound =>
        refine must_atomicSwitchCurrent.mono fun r d₃ ⟨hs, hr⟩ => ⟨laid.switched (hmissing rfl) hs, ?_⟩
        intro h
        rw [HasLayout, hr h, hs.directories]
        exact ⟨rfl, there⟩
      | .error .alreadyExists => exact ⟨laid, by simp⟩
      | .error (.other text) => exact ⟨laid, by simp⟩
    · rintro error d₂ ⟨rfl, -, -⟩
      exact ⟨laid, by simp⟩
  · rintro error d₁ ⟨laid, -⟩
    exact ⟨laid, by simp⟩

end Layout

section Sample

/-- Every step works at time 5; a directory is read in the order of the names. -/
def allWork (e : BirdCall) (d : BirdDisk) : Option (BirdAnswer e × BirdDisk) :=
  let entries := match e with
    | .file (.readDir path) =>
      (d.tree.entryPaths path).map fun entry => String.ofList (entry.toList.drop (path.length + 1))
    | _ => []
  exec ⟨⟨none, entries, 0o755, "", []⟩, 5, none⟩ e d

lemma allWork_exec (e : BirdCall) (d : BirdDisk) (r : BirdAnswer e) (d' : BirdDisk)
    (h : allWork e d = some (r, d')) : ∃ o, True ∧ exec o e d = some (r, d') := ⟨_, trivial, h⟩

end Sample

end Autopeer.BirdTriples
