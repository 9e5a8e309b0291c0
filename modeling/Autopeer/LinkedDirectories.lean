import Mathlib.Tactic
import Std.Data.ExtTreeMap

/-! A tree of files for programs that fill directories and publish them through a link. Each call is
one step; it may be refused, and a refused write or removal may have done a part of its work. -/
namespace Autopeer.LinkedDirectories

/-- The files of a directory. -/
abbrev Files := Std.ExtTreeMap String String

/-- The directories under their paths, and the symbolic links with their targets. -/
structure Tree where
  directories : Std.ExtTreeMap String Files
  links : Std.ExtTreeMap String String
  deriving DecidableEq

inductive Refusal
  | notFound
  | alreadyExists
  | other (text : String)
  deriving DecidableEq

def Refusal.text : Refusal → String
  | .notFound => "No such file or directory (os error 2)"
  | .alreadyExists => "File exists (os error 17)"
  | .other text => text

inductive Call
  | createDirAll (dir : String)
  | createDir (dir : String)
  | readDir (path : String)
  | nextEntry (path : String)
  | read (path name : String)
  | metadata (dir : String)
  | openFile (dir name : String) (mode : UInt32)
  | writeAll (dir name text : String)
  | flush (path : String)
  | syncAll (path : String)
  | setPermissions (path : String) (mode : UInt32)
  | renameFile (dir name newName : String)
  | openDirectory (dir : String)
  | symlink (target link : String)
  | renameLink (link newLink : String)
  | symlinkMetadata (link : String)
  | readLink (link : String)
  | removeFile (link : String)
  | removeDirAll (dir : String)
  deriving DecidableEq

/-- What a call returns when it is not refused. -/
abbrev Value : Call → Type
  | .readDir _ => List String
  | .read .. => String
  | .readLink _ => String
  | .metadata _ => UInt32
  | _ => Unit

abbrev Answer (e : Call) : Type := Except Refusal (Value e)

/-- What the system adds to a call. -/
structure Outcome where
  /-- The error of a call that the system refuses. -/
  refused : Option String
  /-- The order in which a directory is read. -/
  entries : List String
  mode : UInt32
  /-- The text that a refused write leaves. -/
  torn : String
  /-- The files that a refused removal leaves. -/
  kept : List String

section Effects
variable (t : Tree)

/-- The files that a path leads to, through a link if it names one. -/
def Tree.resolve (path : String) : Option Files :=
  match t.links[path]? with
  | some target => t.directories[target]?
  | none => t.directories[path]?

/-- The directories in a directory. -/
def Tree.inside (path : String) : List String :=
  t.directories.keys.filter fun dir => dir.startsWith (path ++ "/")

def Tree.put (dir : String) (files : Files) : Tree :=
  { t with directories := t.directories.insert dir files }

def Tree.remove (dir : String) : Tree := { t with directories := t.directories.erase dir }

def Tree.putLink (link target : String) : Tree := { t with links := t.links.insert link target }

def Tree.removeLink (link : String) : Tree := { t with links := t.links.erase link }

/-- A call on the files of one directory. -/
def Tree.edit (dir : String) (change : Files → Option Files) : Except Refusal Unit × Tree :=
  match (t.directories[dir]?).bind change with
  | some files => (.ok (), t.put dir files)
  | none => (.error .notFound, t)

def opened (name : String) (files : Files) : Option Files := some (files.insert name "")

def written (name text : String) (files : Files) : Option Files :=
  (files[name]?).map fun before => files.insert name (before ++ text)

def renamed (name newName : String) (files : Files) : Option Files :=
  (files[name]?).map fun text => (files.erase name).insert newName text

/-- The paths of the entries of a directory. -/
def Tree.entryPaths (path : String) : List String :=
  match t.resolve path with
  | some files => files.keys.map fun name => path ++ "/" ++ name
  | none => t.inside path

/-- The entries of a directory in the order in which they are read. -/
def Tree.Lists (path : String) (names : List String) : Prop :=
  (names.map fun name => path ++ "/" ++ name).Perm (t.entryPaths path)

instance (path : String) (names : List String) : Decidable (t.Lists path names) :=
  inferInstanceAs (Decidable (List.Perm _ _))

end Effects

/-- A call that the system does not refuse. -/
def perform (o : Outcome) : (e : Call) → Tree → Option (Answer e × Tree)
  | .createDirAll dir, t => some (.ok (), t.put dir ((t.directories[dir]?).getD ∅))
  | .createDir dir, t =>
    match t.directories[dir]? with
    | some _ => some (.error .alreadyExists, t)
    | none => some (.ok (), t.put dir ∅)
  | .readDir path, t =>
    if t.resolve path = none ∧ t.inside path = [] then some (.error .notFound, t)
    else if t.Lists path o.entries then some (.ok o.entries, t)
    else none
  | .read path name, t =>
    match (t.resolve path).bind fun files => files[name]? with
    | some text => some (.ok text, t)
    | none => some (.error .notFound, t)
  | .metadata dir, t =>
    if (t.directories[dir]?).isSome then some (.ok o.mode, t) else some (.error .notFound, t)
  | .openFile dir name _, t => some (t.edit dir (opened name))
  | .writeAll dir name text, t => some (t.edit dir (written name text))
  | .renameFile dir name newName, t => some (t.edit dir (renamed name newName))
  | .symlink target link, t =>
    match t.links[link]? with
    | some _ => some (.error .alreadyExists, t)
    | none => some (.ok (), t.putLink link target)
  | .renameLink link newLink, t =>
    match t.links[link]? with
    | some target => some (.ok (), (t.removeLink link).putLink newLink target)
    | none => some (.error .notFound, t)
  | .symlinkMetadata link, t =>
    if (t.links[link]?).isSome then some (.ok (), t) else some (.error .notFound, t)
  | .readLink link, t =>
    match t.links[link]? with
    | some target => some (.ok target, t)
    | none => some (.error .notFound, t)
  | .removeFile link, t =>
    if (t.links[link]?).isSome then some (.ok (), t.removeLink link) else some (.error .notFound, t)
  | .removeDirAll dir, t =>
    if (t.directories[dir]?).isSome then some (.ok (), t.remove dir) else some (.error .notFound, t)
  | .nextEntry _, t | .flush _, t | .syncAll _, t | .setPermissions .., t | .openDirectory _, t =>
    some (.ok (), t)

/-- What a refused call leaves. -/
def spoil (o : Outcome) : Call → Tree → Tree
  | .writeAll dir name _, t => (t.edit dir fun files => some (files.insert name o.torn)).2
  | .removeDirAll dir, t =>
    (t.edit dir fun files => some (files.filter fun name _ => decide (name ∈ o.kept))).2
  | _, t => t

def exec (o : Outcome) (e : Call) (t : Tree) : Option (Answer e × Tree) :=
  match o.refused with
  | some text => some (.error (.other text), spoil o e t)
  | none => perform o e t

/-- The calls that change nothing. -/
def Call.looks : Call → Bool
  | .readDir _ | .nextEntry _ | .read .. | .metadata _ | .flush _ | .syncAll _ | .setPermissions ..
  | .openDirectory _ | .symlinkMetadata _ | .readLink _ => true
  | _ => false

variable {t t' : Tree} {e : Call} {r : Answer e} {o : Outcome}

lemma perform_looks (hl : e.looks) (h : perform o e t = some (r, t')) : t' = t := by
  cases e with
  | nextEntry | flush | syncAll | setPermissions | openDirectory =>
    exact (Prod.mk.inj (Option.some.inj h)).2.symm
  | readDir =>
    simp only [perform] at h
    split at h
    · exact (Prod.mk.inj (Option.some.inj h)).2.symm
    · split at h
      · exact (Prod.mk.inj (Option.some.inj h)).2.symm
      · cases h
  | read | metadata | symlinkMetadata | readLink =>
    simp only [perform] at h
    split at h <;> exact (Prod.mk.inj (Option.some.inj h)).2.symm
  | _ => cases hl

lemma spoil_looks (hl : e.looks) : spoil o e t = t := by
  cases e <;> first | rfl | cases hl

lemma exec_looks (hl : e.looks) (h : exec o e t = some (r, t')) : t' = t := by
  unfold exec at h
  split at h
  · rw [← (Prod.mk.inj (Option.some.inj h)).2]
    exact spoil_looks hl
  · exact perform_looks hl h

section Cases
lemma exec_cases (h : exec o e t = some (r, t')) :
    (∃ text, o.refused = some text ∧ r = .error (.other text) ∧ t' = spoil o e t) ∨
      o.refused = none ∧ perform o e t = some (r, t') := by
  unfold exec at h
  split at h
  · rename_i text hr
    obtain ⟨rfl, rfl⟩ := Prod.mk.inj (Option.some.inj h)
    exact .inl ⟨text, hr, rfl, rfl⟩
  · rename_i hr
    exact .inr ⟨hr, h⟩

variable {dir link newLink target name newName text : String} {files files' : Files}
  {u : Except Refusal Unit}

lemma createDirAll_effect (h : exec o (.createDirAll dir) t = some (u, t')) :
    (∃ source, u = .error source) ∧ t' = t ∨
      u = .ok () ∧ t' = t.put dir ((t.directories[dir]?).getD ∅) := by
  rcases exec_cases h with ⟨text, -, rfl, rfl⟩ | ⟨-, h⟩
  · exact .inl ⟨⟨_, rfl⟩, rfl⟩
  · obtain ⟨rfl, rfl⟩ := Prod.mk.inj (Option.some.inj h)
    exact .inr ⟨rfl, rfl⟩

lemma symlinkMetadata_effect
    (h : exec o (.symlinkMetadata link) t = some (u, t')) :
    t' = t ∧ (u = .ok () → (t.links[link]?).isSome) ∧
      (u = .error .notFound → t.links[link]? = none) := by
  rcases exec_cases h with ⟨text, -, rfl, rfl⟩ | ⟨-, h⟩
  · exact ⟨rfl, by simp, by simp⟩
  · simp only [perform] at h
    split at h
    · rename_i there
      obtain ⟨rfl, rfl⟩ := Prod.mk.inj (Option.some.inj h)
      exact ⟨rfl, fun _ => there, by simp⟩
    · rename_i missing
      obtain ⟨rfl, rfl⟩ := Prod.mk.inj (Option.some.inj h)
      exact ⟨rfl, by simp, fun _ => by simpa using missing⟩

lemma symlink_effect (h : exec o (.symlink target link) t = some (u, t')) :
    (∃ source, u = .error source) ∧ t' = t ∨ u = .ok () ∧ t' = t.putLink link target := by
  rcases exec_cases h with ⟨text, -, rfl, rfl⟩ | ⟨-, h⟩
  · exact .inl ⟨⟨_, rfl⟩, rfl⟩
  · simp only [perform] at h
    split at h <;> obtain ⟨rfl, rfl⟩ := Prod.mk.inj (Option.some.inj h)
    · exact .inl ⟨⟨_, rfl⟩, rfl⟩
    · exact .inr ⟨rfl, rfl⟩

lemma renameLink_effect (linked : t.links[link]? = some target)
    (h : exec o (.renameLink link newLink) t = some (u, t')) :
    (∃ source, u = .error source) ∧ t' = t ∨
      u = .ok () ∧ t' = (t.removeLink link).putLink newLink target := by
  rcases exec_cases h with ⟨text, -, rfl, rfl⟩ | ⟨-, h⟩
  · exact .inl ⟨⟨_, rfl⟩, rfl⟩
  · simp only [perform, linked] at h
    obtain ⟨rfl, rfl⟩ := Prod.mk.inj (Option.some.inj h)
    exact .inr ⟨rfl, rfl⟩

lemma removeFile_effect (h : exec o (.removeFile link) t = some (u, t')) :
    (∃ text, u = .error (.other text)) ∧ t' = t ∨
      u = .error .notFound ∧ t.links[link]? = none ∧ t' = t ∨ u = .ok () ∧ t' = t.removeLink link := by
  rcases exec_cases h with ⟨text, -, rfl, rfl⟩ | ⟨-, h⟩
  · exact .inl ⟨⟨_, rfl⟩, rfl⟩
  · simp only [perform] at h
    split at h
    · obtain ⟨rfl, rfl⟩ := Prod.mk.inj (Option.some.inj h)
      exact .inr (.inr ⟨rfl, rfl⟩)
    · rename_i missing
      obtain ⟨rfl, rfl⟩ := Prod.mk.inj (Option.some.inj h)
      exact .inr (.inl ⟨rfl, by simpa using missing, rfl⟩)

lemma edit_cases {change : Files → Option Files} (h : t.edit dir change = (u, t')) :
    (∃ source, u = .error source) ∧ t' = t ∨ ∃ files files', t.directories[dir]? = some files ∧
      change files = some files' ∧ u = .ok () ∧ t' = t.put dir files' := by
  unfold Tree.edit at h
  split at h
  · rename_i files' hc
    obtain ⟨files, hd, hc⟩ := Option.bind_eq_some_iff.mp hc
    obtain ⟨rfl, rfl⟩ := Prod.mk.inj h
    exact .inr ⟨files, files', hd, hc, rfl, rfl⟩
  · obtain ⟨rfl, rfl⟩ := Prod.mk.inj h
    exact .inl ⟨⟨_, rfl⟩, rfl⟩

lemma openFile_effect {mode : UInt32}
    (h : exec o (.openFile dir name mode) t = some (u, t')) :
    (∃ source, u = .error source) ∧ t' = t ∨ ∃ files, t.directories[dir]? = some files ∧
      u = .ok () ∧ t' = t.put dir (files.insert name "") := by
  rcases exec_cases h with ⟨text, -, rfl, rfl⟩ | ⟨-, h⟩
  · exact .inl ⟨⟨_, rfl⟩, rfl⟩
  · rcases edit_cases (Option.some.inj h) with refused | ⟨files, files', hd, hc, rfl, rfl⟩
    · exact .inl refused
    · obtain rfl := Option.some.inj hc
      exact .inr ⟨files, hd, rfl, rfl⟩

/-- A refused write may have written a part. -/
lemma writeAll_effect (h : exec o (.writeAll dir name text) t = some (u, t')) :
    (∃ source, u = .error source) ∧ (t' = t ∨ ∃ files part, t.directories[dir]? = some files ∧
        t' = t.put dir (files.insert name part)) ∨
      ∃ files before, t.directories[dir]? = some files ∧ files[name]? = some before ∧
        u = .ok () ∧ t' = t.put dir (files.insert name (before ++ text)) := by
  rcases exec_cases h with ⟨source, -, rfl, rfl⟩ | ⟨-, h⟩
  · refine .inl ⟨⟨_, rfl⟩, ?_⟩
    have spoiled := Prod.eta (t.edit dir fun files => some (files.insert name o.torn))
    rcases edit_cases spoiled.symm with ⟨-, h⟩ | ⟨files, files', hd, hc, -, h⟩
    · exact .inl h
    · obtain rfl := Option.some.inj hc
      exact .inr ⟨files, o.torn, hd, h⟩
  · rcases edit_cases (Option.some.inj h) with ⟨refused, rfl⟩ | ⟨files, files', hd, hc, rfl, rfl⟩
    · exact .inl ⟨refused, .inl rfl⟩
    · obtain ⟨before, hb, rfl⟩ := Option.map_eq_some_iff.mp hc
      exact .inr ⟨files, before, hd, hb, rfl, rfl⟩

lemma renameFile_effect
    (h : exec o (.renameFile dir name newName) t = some (u, t')) :
    (∃ source, u = .error source) ∧ t' = t ∨ ∃ files text, t.directories[dir]? = some files ∧
      files[name]? = some text ∧ u = .ok () ∧
        t' = t.put dir ((files.erase name).insert newName text) := by
  rcases exec_cases h with ⟨text, -, rfl, rfl⟩ | ⟨-, h⟩
  · exact .inl ⟨⟨_, rfl⟩, rfl⟩
  · rcases edit_cases (Option.some.inj h) with refused | ⟨files, files', hd, hc, rfl, rfl⟩
    · exact .inl refused
    · obtain ⟨text, ht, rfl⟩ := Option.map_eq_some_iff.mp hc
      exact .inr ⟨files, text, hd, ht, rfl, rfl⟩

lemma createDir_effect (h : exec o (.createDir dir) t = some (u, t')) :
    (∃ text, u = .error (.other text)) ∧ t' = t ∨
      u = .error .alreadyExists ∧ (t.directories[dir]?).isSome ∧ t' = t ∨
      u = .ok () ∧ t.directories[dir]? = none ∧ t' = t.put dir ∅ := by
  rcases exec_cases h with ⟨text, -, rfl, rfl⟩ | ⟨-, h⟩
  · exact .inl ⟨⟨_, rfl⟩, rfl⟩
  · simp only [perform] at h
    split at h
    · rename_i files hd
      obtain ⟨rfl, rfl⟩ := Prod.mk.inj (Option.some.inj h)
      exact .inr (.inl ⟨rfl, by rw [hd]; rfl, rfl⟩)
    · rename_i fresh
      obtain ⟨rfl, rfl⟩ := Prod.mk.inj (Option.some.inj h)
      exact .inr (.inr ⟨rfl, fresh, rfl⟩)

/-- A removal makes no directory. -/
lemma removeDirAll_effect (h : exec o (.removeDirAll dir) t = some (u, t')) :
    t' = t ∨ t' = t.remove dir ∨
      (t.directories[dir]?).isSome ∧ ∃ files, t' = t.put dir files := by
  rcases exec_cases h with ⟨text, -, -, rfl⟩ | ⟨-, h⟩
  · have spoiled := Prod.eta
      (t.edit dir fun files => some (files.filter fun name _ => decide (name ∈ o.kept)))
    rcases edit_cases spoiled.symm with ⟨-, h⟩ | ⟨files, files', hd, -, -, h⟩
    · exact .inl h
    · exact .inr (.inr ⟨by rw [hd]; rfl, files', h⟩)
  · simp only [perform] at h
    split at h
    · exact .inr (.inl (Prod.mk.inj (Option.some.inj h)).2.symm)
    · exact .inl (Prod.mk.inj (Option.some.inj h)).2.symm

end Cases

end Autopeer.LinkedDirectories
