import Autopeer.LinkedDirectories

/-! Publication through a link: what a program must know before each of its calls so that the link
never leads to a directory that is not whole. The knowledge moves with the answers of its calls. -/
namespace Autopeer.LinkPublication
open LinkedDirectories

/-- What a program knows of the tree. -/
structure Knowledge where
  /-- The directory that it fills, with the files put there so far. -/
  building : Option (String × Files) := none
  /-- Directories that are whole. -/
  whole : List String := []
  /-- A link under another name, with its target. -/
  staged : Option (String × String) := none
  /-- The target of the link. -/
  current : Option String := none

/-- The link, a directory that is there from the start, and which files make a directory whole. -/
structure Publication where
  link : String
  base : String
  Whole : String → Files → Prop
  base_empty : Whole base ∅

variable (P : Publication)

/-- The directory is there and whole. -/
def Publication.Stands (t : Tree) (dir : String) : Prop :=
  ∃ files, t.directories[dir]? = some files ∧ P.Whole dir files

/-- Whatever stops the program now, the link leads to a directory that is whole. -/
structure Publication.Sound (t : Tree) (k : Knowledge) : Prop where
  published : ∀ dir, t.links[P.link]? = some dir → P.Stands t dir
  base : ∀ files, t.directories[P.base]? = some files → P.Whole P.base files
  whole : ∀ dir ∈ k.whole, P.Stands t dir
  building : ∀ dir files, k.building = some (dir, files) →
    t.directories[dir]? = some files ∧ dir ≠ P.base ∧ dir ∉ k.whole ∧ t.links[P.link]? ≠ some dir
  staged : ∀ link dir, k.staged = some (link, dir) →
    link ≠ P.link ∧ t.links[link]? = some dir ∧ dir ∈ k.whole
  current : ∀ dir, k.current = some dir → t.links[P.link]? = some dir

/-- The calls that keep the link sound. -/
def Publication.Allows (k : Knowledge) : Call → Prop
  | .createDirAll dir => dir = P.base
  | .createDir dir => dir ≠ P.base
  | .openFile dir _ _ | .writeAll dir _ _ | .renameFile dir _ _ => ∃ files, k.building = some (dir, files)
  | .symlink target link =>
    link ≠ P.link ∧
      (target ∈ k.whole ∨ ∃ files, k.building = some (target, files) ∧ P.Whole target files)
  | .renameLink link newLink => newLink = P.link ∧ ∃ target, k.staged = some (link, target)
  | .removeDirAll dir => dir ≠ P.base ∧ ∃ target, k.current = some target ∧ dir ≠ target
  | _ => True

/-- The files that an edit of the directory leaves, if it was not refused. -/
def Knowledge.edit (k : Knowledge) (change : Files → Option Files) (r : Except Refusal Unit) :
    Knowledge :=
  { k with
    building := match r with
      | .ok _ => k.building.bind fun b => (change b.2).map fun files => (b.1, files)
      | .error _ => none }

def Publication.next (k : Knowledge) : (e : Call) → Answer e → Knowledge
  | .createDirAll dir, .ok _ => { k with whole := dir :: k.whole }
  | .createDir dir, .ok _ => { k with building := some (dir, ∅) }
  | .openFile _ name _, r => k.edit (opened name) r
  | .writeAll _ name text, r => k.edit (written name text) r
  | .renameFile _ name newName, r => k.edit (renamed name newName) r
  | .symlink target link, .ok _ =>
    { k with building := none, whole := target :: k.whole, staged := some (link, target) }
  | .renameLink _ _, .ok _ =>
    { k with building := none, staged := none, current := k.staged.map Prod.snd }
  | .readLink link, .ok target =>
    if link = P.link then { k with whole := target :: k.whole } else k
  | .removeFile _, _ => { k with staged := none, current := none }
  | .removeDirAll _, _ => { current := k.current }
  | _, _ => k

variable {P} {t t' : Tree} {k k' : Knowledge} {dir link : String}

section Trees
variable {files : Files} {target path : String}

@[simp] lemma put_links : (t.put dir files).links = t.links := rfl

@[simp] lemma remove_links : (t.remove dir).links = t.links := rfl

@[simp] lemma putLink_directories : (t.putLink link target).directories = t.directories := rfl

@[simp] lemma removeLink_directories : (t.removeLink link).directories = t.directories := rfl

lemma put_directories : (t.put dir files).directories[path]? =
    if dir = path then some files else t.directories[path]? := by
  simp [Tree.put, Std.ExtTreeMap.getElem?_insert]

lemma remove_directories : (t.remove dir).directories[path]? =
    if dir = path then none else t.directories[path]? := by
  simp [Tree.remove, Std.ExtTreeMap.getElem?_erase]

lemma putLink_links : (t.putLink link target).links[path]? =
    if link = path then some target else t.links[path]? := by
  simp [Tree.putLink, Std.ExtTreeMap.getElem?_insert]

lemma removeLink_links : (t.removeLink link).links[path]? =
    if link = path then none else t.links[path]? := by
  simp [Tree.removeLink, Std.ExtTreeMap.getElem?_erase]

end Trees

namespace Publication

lemma Stands.congr (h : P.Stands t dir) (same : t'.directories[dir]? = t.directories[dir]?) :
    P.Stands t' dir := by
  obtain ⟨files, hd, hw⟩ := h
  exact ⟨files, same.trans hd, hw⟩

lemma Stands.put_of_ne {files : Files} {other : String} (h : P.Stands t dir) (hne : other ≠ dir) :
    P.Stands (t.put other files) dir :=
  h.congr (by rw [put_directories, if_neg hne])

lemma Stands.not_fresh (h : P.Stands t dir) : t.directories[dir]? ≠ none := by
  obtain ⟨files, hd, -⟩ := h
  simp [hd]

namespace Sound

/-- A program that is stopped takes its knowledge with it. -/
lemma stopped (h : P.Sound t k) : P.Sound t {} :=
  ⟨h.published, h.base, by simp, by simp, by simp, by simp⟩

lemma abandon (h : P.Sound t k) : P.Sound t { k with building := none } :=
  ⟨h.published, h.base, h.whole, by simp, h.staged, h.current⟩

/-- Only the directory that is being filled changes. -/
lemma fill {files files' : Files} (h : P.Sound t k) (hb : k.building = some (dir, files)) :
    P.Sound (t.put dir files') { k with building := some (dir, files') } := by
  obtain ⟨-, hbase, hwhole, hlink⟩ := h.building dir files hb
  constructor
  · intro d hd
    exact (h.published d hd).put_of_ne fun heq => hlink (heq ▸ hd)
  · intro g hg
    rw [put_directories, if_neg hbase] at hg
    exact h.base g hg
  · intro d hd
    exact (h.whole d hd).put_of_ne fun heq => hwhole (heq ▸ hd)
  · intro d g hg
    obtain ⟨rfl, rfl⟩ : dir = d ∧ files' = g := by simpa using hg
    exact ⟨by simp [put_directories], hbase, hwhole, hlink⟩
  · exact h.staged
  · exact h.current

lemma createDirAll (h : P.Sound t k) :
    P.Sound (t.put P.base ((t.directories[P.base]?).getD ∅)) { k with whole := P.base :: k.whole } := by
  have there : P.Whole P.base ((t.directories[P.base]?).getD ∅) := by
    cases hb : t.directories[P.base]? with
    | none => exact P.base_empty
    | some files => exact h.base files hb
  have base : P.Stands (t.put P.base ((t.directories[P.base]?).getD ∅)) P.base :=
    ⟨_, by simp [put_directories], there⟩
  have others : ∀ d, P.Stands t d → P.Stands (t.put P.base ((t.directories[P.base]?).getD ∅)) d := by
    intro d hd
    by_cases heq : P.base = d
    · exact heq ▸ base
    · exact hd.put_of_ne heq
  constructor
  · exact fun d hd => others d (h.published d hd)
  · intro g hg
    rw [put_directories, if_pos rfl, Option.some.injEq] at hg
    exact hg ▸ there
  · intro d hd
    rcases List.mem_cons.mp hd with rfl | hd
    · exact base
    · exact others d (h.whole d hd)
  · intro d g hg
    obtain ⟨hd, hne, hw, hl⟩ := h.building d g hg
    refine ⟨?_, hne, by simp [hne, hw], hl⟩
    rw [put_directories, if_neg (Ne.symm hne)]
    exact hd
  · intro l d hd
    obtain ⟨hne, hl, hw⟩ := h.staged l d hd
    exact ⟨hne, hl, List.mem_cons_of_mem _ hw⟩
  · exact h.current

/-- A new directory is none of those that a link leads to. -/
lemma createDir (h : P.Sound t k) (fresh : t.directories[dir]? = none) (hne : dir ≠ P.base) :
    P.Sound (t.put dir ∅) { k with building := some (dir, ∅) } := by
  have other : ∀ d, P.Stands t d → dir ≠ d := fun d hd heq => hd.not_fresh (heq ▸ fresh)
  constructor
  · intro d hd
    exact (h.published d hd).put_of_ne (other d (h.published d hd))
  · intro g hg
    rw [put_directories, if_neg hne] at hg
    exact h.base g hg
  · intro d hd
    exact (h.whole d hd).put_of_ne (other d (h.whole d hd))
  · intro d g hg
    obtain ⟨rfl, rfl⟩ : dir = d ∧ ∅ = g := by simpa using hg
    exact ⟨by simp [put_directories], hne, fun hw => other dir (h.whole dir hw) rfl,
      fun hl => other dir (h.published dir hl) rfl⟩
  · exact h.staged
  · exact h.current

lemma symlink (h : P.Sound t k) (hne : link ≠ P.link) (stands : P.Stands t dir) :
    P.Sound (t.putLink link dir)
      { k with building := none, whole := dir :: k.whole, staged := some (link, dir) } := by
  have published : (t.putLink link dir).links[P.link]? = t.links[P.link]? := by
    rw [putLink_links, if_neg hne]
  constructor
  · intro d hd
    exact (h.published d (published ▸ hd)).congr rfl
  · exact h.base
  · intro d hd
    rcases List.mem_cons.mp hd with rfl | hd
    · exact stands.congr rfl
    · exact (h.whole d hd).congr rfl
  · simp
  · intro l d hd
    obtain ⟨rfl, rfl⟩ : link = l ∧ dir = d := by simpa using hd
    exact ⟨hne, by simp [putLink_links], List.mem_cons_self⟩
  · intro d hd
    rw [published]
    exact h.current d hd

/-- The staged link takes the place of the published one in one step. -/
lemma renameLink (h : P.Sound t k) (hs : k.staged = some (link, dir)) :
    P.Sound ((t.removeLink link).putLink P.link dir)
      { k with building := none, staged := none, current := some dir } := by
  obtain ⟨-, -, hw⟩ := h.staged link dir hs
  constructor
  · intro d hd
    rw [putLink_links, if_pos rfl, Option.some.injEq] at hd
    exact hd ▸ (h.whole dir hw).congr rfl
  · exact h.base
  · exact fun d hd => (h.whole d hd).congr rfl
  · simp
  · simp
  · intro d hd
    rw [putLink_links, if_pos rfl]
    exact hd

lemma removeLink (h : P.Sound t k) :
    P.Sound (t.removeLink link) { k with staged := none, current := none } := by
  have less : ∀ d, (t.removeLink link).links[P.link]? = some d → t.links[P.link]? = some d := by
    intro d hd
    rw [removeLink_links] at hd
    split at hd
    · cases hd
    · exact hd
  refine ⟨fun d hd => (h.published d (less d hd)).congr rfl, h.base,
    fun d hd => (h.whole d hd).congr rfl, ?_, by simp, by simp⟩
  intro d g hg
  obtain ⟨hd, hne, hw, hl⟩ := h.building d g hg
  exact ⟨hd, hne, hw, fun hl' => hl (less d hl')⟩

lemma readLink (h : P.Sound t k) (hl : t.links[P.link]? = some dir) :
    P.Sound t { k with whole := dir :: k.whole } := by
  refine ⟨h.published, h.base, ?_, ?_, ?_, h.current⟩
  · intro d hd
    rcases List.mem_cons.mp hd with rfl | hd
    · exact h.published d hl
    · exact h.whole d hd
  · intro d g hg
    obtain ⟨hd, hne, hw, hlink⟩ := h.building d g hg
    refine ⟨hd, hne, ?_, hlink⟩
    rw [List.mem_cons, not_or]
    exact ⟨fun heq => hlink (heq ▸ hl), hw⟩
  · intro l d hd
    obtain ⟨hne, hl', hw⟩ := h.staged l d hd
    exact ⟨hne, hl', List.mem_cons_of_mem _ hw⟩

/-- Whatever happens to a directory that the link does not lead to. -/
lemma discard (h : P.Sound t k) {target : String} (hc : k.current = some target) (hne : dir ≠ target)
    (hbase : dir ≠ P.base) (links : t'.links = t.links)
    (others : ∀ d, d ≠ dir → t'.directories[d]? = t.directories[d]?) :
    P.Sound t' { current := k.current } := by
  have hl := h.current target hc
  constructor
  · intro d hd
    rw [links, hl, Option.some.injEq] at hd
    subst d
    exact (h.published target hl).congr (others target (Ne.symm hne))
  · intro g hg
    rw [others _ (Ne.symm hbase)] at hg
    exact h.base g hg
  · simp
  · simp
  · simp
  · intro d hd
    rw [links]
    exact h.current d hd

/-- A removal, complete or not. -/
lemma removeDirAll {target : String} (h : P.Sound t k) (files : Files)
    (hc : k.current = some target) (hne : dir ≠ target) (hbase : dir ≠ P.base) :
    P.Sound (t.remove dir) { current := k.current } ∧
      P.Sound (t.put dir files) { current := k.current } ∧ P.Sound t { current := k.current } := by
  refine ⟨h.discard hc hne hbase rfl fun d hd => ?_, h.discard hc hne hbase rfl fun d hd => ?_,
    h.discard hc hne hbase rfl fun d hd => rfl⟩
  · rw [remove_directories, if_neg (Ne.symm hd)]
  · rw [put_directories, if_neg (Ne.symm hd)]

/-- An edit of the directory that is being filled. -/
lemma edit {files : Files} (h : P.Sound t k) (hb : k.building = some (dir, files))
    (change : Files → Option Files) :
    P.Sound (t.edit dir change).2 (k.edit change (t.edit dir change).1) := by
  have hd := (h.building dir files hb).1
  cases hc : change files with
  | none =>
    simp only [Tree.edit, hd, Option.bind_some, hc, Knowledge.edit]
    exact h.abandon
  | some files' =>
    simp only [Tree.edit, hd, Option.bind_some, hc, Knowledge.edit, hb, Option.map_some]
    exact h.fill hb

lemma spoil {e : Call} (h : P.Sound t k) (ha : P.Allows k e) (o : Outcome) (text : String) :
    P.Sound (spoil o e t) (P.next k e (.error (.other text))) := by
  cases e with
  | openFile dir name mode => exact h.abandon
  | renameFile dir name newName => exact h.abandon
  | writeAll dir name text =>
    obtain ⟨files, hb⟩ := ha
    have hd := (h.building dir files hb).1
    simp only [LinkedDirectories.spoil, Tree.edit, hd, Option.bind_some]
    exact (h.fill hb).abandon
  | removeFile link =>
    exact ⟨h.published, h.base, h.whole, h.building, by simp [next], by simp [next]⟩
  | removeDirAll dir =>
    obtain ⟨hbase, target, hc, hne⟩ := ha
    simp only [LinkedDirectories.spoil, Tree.edit]
    split
    · exact (h.removeDirAll _ hc hne hbase).2.1
    · exact (h.removeDirAll ∅ hc hne hbase).2.2
  | _ => exact h

lemma perform {e : Call} {r : Answer e} {o : Outcome} (h : P.Sound t k) (ha : P.Allows k e)
    (hx : perform o e t = some (r, t')) : P.Sound t' (P.next k e r) := by
  cases e with
  | createDirAll dir =>
    obtain rfl : dir = P.base := ha
    obtain ⟨rfl, rfl⟩ := Prod.mk.inj (Option.some.inj hx)
    exact h.createDirAll
  | createDir dir =>
    simp only [LinkedDirectories.perform] at hx
    split at hx
    · obtain ⟨rfl, rfl⟩ := Prod.mk.inj (Option.some.inj hx)
      exact h
    · rename_i fresh
      obtain ⟨rfl, rfl⟩ := Prod.mk.inj (Option.some.inj hx)
      exact h.createDir fresh ha
  | openFile dir name mode =>
    obtain ⟨files, hb⟩ := ha
    obtain ⟨rfl, rfl⟩ := Prod.mk.inj (Option.some.inj hx)
    exact h.edit hb _
  | writeAll dir name text =>
    obtain ⟨files, hb⟩ := ha
    obtain ⟨rfl, rfl⟩ := Prod.mk.inj (Option.some.inj hx)
    exact h.edit hb _
  | renameFile dir name newName =>
    obtain ⟨files, hb⟩ := ha
    obtain ⟨rfl, rfl⟩ := Prod.mk.inj (Option.some.inj hx)
    exact h.edit hb _
  | symlink target link =>
    obtain ⟨hne, htarget⟩ := ha
    have stands : P.Stands t target := by
      rcases htarget with hw | ⟨files, hb, hw⟩
      · exact h.whole target hw
      · exact ⟨files, (h.building target files hb).1, hw⟩
    simp only [LinkedDirectories.perform] at hx
    split at hx
    · obtain ⟨rfl, rfl⟩ := Prod.mk.inj (Option.some.inj hx)
      exact h
    · obtain ⟨rfl, rfl⟩ := Prod.mk.inj (Option.some.inj hx)
      exact h.symlink hne stands
  | renameLink link newLink =>
    obtain ⟨rfl, target, hs⟩ := ha
    simp only [LinkedDirectories.perform, (h.staged link target hs).2.1] at hx
    obtain ⟨rfl, rfl⟩ := Prod.mk.inj (Option.some.inj hx)
    have renamed := h.renameLink hs
    simpa only [next, hs, Option.map_some] using renamed
  | readLink link =>
    simp only [LinkedDirectories.perform] at hx
    split at hx
    · rename_i target hl
      obtain ⟨rfl, rfl⟩ := Prod.mk.inj (Option.some.inj hx)
      by_cases heq : link = P.link
      · subst heq
        simpa only [next, if_pos] using h.readLink hl
      · simpa only [next, if_neg heq] using h
    · obtain ⟨rfl, rfl⟩ := Prod.mk.inj (Option.some.inj hx)
      exact h
  | removeFile link =>
    simp only [LinkedDirectories.perform] at hx
    split at hx
    · obtain ⟨rfl, rfl⟩ := Prod.mk.inj (Option.some.inj hx)
      exact h.removeLink
    · obtain ⟨rfl, rfl⟩ := Prod.mk.inj (Option.some.inj hx)
      exact ⟨h.published, h.base, h.whole, h.building, by simp [next], by simp [next]⟩
  | removeDirAll dir =>
    obtain ⟨hbase, target, hc, hne⟩ := ha
    have removed := h.removeDirAll ∅ hc hne hbase
    simp only [LinkedDirectories.perform] at hx
    split at hx
    · obtain ⟨rfl, rfl⟩ := Prod.mk.inj (Option.some.inj hx)
      exact removed.1
    · obtain ⟨rfl, rfl⟩ := Prod.mk.inj (Option.some.inj hx)
      exact removed.2.2
  | _ =>
    obtain rfl := perform_looks rfl hx
    exact h

/-- An allowed call keeps the link sound, whether it is refused or not. -/
theorem exec {e : Call} {r : Answer e} {o : Outcome} (h : P.Sound t k) (ha : P.Allows k e)
    (hx : exec o e t = some (r, t')) : P.Sound t' (P.next k e r) := by
  cases hr : o.refused with
  | none =>
    simp only [LinkedDirectories.exec, hr] at hx
    exact h.perform ha hx
  | some text =>
    simp only [LinkedDirectories.exec, hr] at hx
    obtain ⟨rfl, rfl⟩ := Prod.mk.inj (Option.some.inj hx)
    exact h.spoil ha o text

end Sound

end Publication

end Autopeer.LinkPublication
