import Autopeer.ProgramTree
import Autopeer.LinkedDirectories
import Autopeer.BirdFiles

/-! `sync_bird_configs_for` call by call: every call of the manager on the files of BIRD is one step
of a program, and the program may be cut between any two. Paths are relative to the root directory
of these files. -/
namespace Autopeer.BirdCalls
open PeerData ProgramTree BirdGeneration LinkedDirectories
open BirdFiles (emptyPath generationName generationPath restoreFailed)

inductive BirdCall
  | file (e : Call)
  /-- The nanoseconds of the clock. -/
  | uniqueSuffix
  | reloadBird
  deriving DecidableEq

abbrev BirdAnswer : BirdCall → Type
  | .file e => Answer e
  | .uniqueSuffix => ℕ
  | .reloadBird => Except PeerError Unit

/-- The files, and what BIRD last loaded. -/
structure BirdDisk where
  tree : Tree
  loaded : Generation
  deriving DecidableEq

/-- What the system, the clock and BIRD add to a call. -/
structure BirdOutcome where
  file : Outcome
  suffix : ℕ
  reload : Option PeerError

/-- The files that BIRD reads. -/
def confFiles (files : Files) : Generation := files.filter fun name _ => name.endsWith ".conf"

section Files
variable {files : Files} {name text : String}

lemma endsWith_iff {suffix : String} :
    text.endsWith suffix = true ↔ suffix.toList <:+ text.toList := by
  have h : text.endsWith suffix = text.toSlice.endsWith suffix := rfl
  rw [h, String.Slice.endsWith_string_iff, String.copy_toSlice]

lemma confFiles_get :
    (confFiles files)[name]? = (files[name]?).filter fun _ => name.endsWith ".conf" := by
  simp [confFiles]

@[simp] lemma confFiles_empty : confFiles ∅ = ∅ := by
  apply Std.ExtTreeMap.ext_getElem?
  intro name
  rw [confFiles_get]
  simp

lemma confFiles_insert (h : name.endsWith ".conf" = true) :
    confFiles (files.insert name text) = (confFiles files).insert name text := by
  apply Std.ExtTreeMap.ext_getElem?
  intro other
  rw [confFiles_get, Std.ExtTreeMap.getElem?_insert, Std.ExtTreeMap.getElem?_insert, confFiles_get]
  split
  · rename_i heq
    obtain rfl : name = other := by simpa using heq
    simp [h]
  · rfl

lemma confFiles_insert_other (h : name.endsWith ".conf" = false) :
    confFiles (files.insert name text) = confFiles files := by
  apply Std.ExtTreeMap.ext_getElem?
  intro other
  rw [confFiles_get, confFiles_get, Std.ExtTreeMap.getElem?_insert]
  split
  · rename_i heq
    obtain rfl : name = other := by simpa using heq
    simp [h]
  · rfl

lemma confFiles_erase_other (h : name.endsWith ".conf" = false) :
    confFiles (files.erase name) = confFiles files := by
  apply Std.ExtTreeMap.ext_getElem?
  intro other
  rw [confFiles_get, confFiles_get, Std.ExtTreeMap.getElem?_erase]
  split
  · rename_i heq
    obtain rfl : name = other := by simpa using heq
    simp [h]
  · rfl

end Files

/-- BIRD reads the files under `current`; without it there are none. -/
def BirdDisk.load (d : BirdDisk) : BirdDisk :=
  { d with loaded := confFiles ((d.tree.resolve "current").getD ∅) }

def exec (o : BirdOutcome) : (e : BirdCall) → BirdDisk → Option (BirdAnswer e × BirdDisk)
  | .file e, d => (LinkedDirectories.exec o.file e d.tree).map fun a => (a.1, { d with tree := a.2 })
  | .uniqueSuffix, d => some (o.suffix, d)
  | .reloadBird, d =>
    match o.reload with
    | some error => some (.error error, d)
    | none => some (.ok (), d.load)

abbrev BirdAction (α : Type) := Action PeerError BirdCall BirdAnswer α

section Calls

def uniqueSuffix : BirdAction ℕ := ExceptT.mk (.call .uniqueSuffix fun suffix => .done (.ok suffix))

def reloadBird : BirdAction Unit := ExceptT.mk (.call .reloadBird .done)

/-- A call whose refusal the program looks at itself. -/
def rawCall (e : Call) : BirdAction (Answer e) := ExceptT.mk (.call (.file e) fun r => .done (.ok r))

/-- The error of a refused call names a path. -/
def context {α : Type} (path : String) : Except Refusal α → Except PeerError α
  | .ok a => .ok a
  | .error source => .error (.birdConfigIo source.text path)

def fileCall (e : Call) (path : String) : BirdAction (Value e) :=
  ExceptT.mk (.call (.file e) fun r => .done (context path r))

def ignore (e : Call) : BirdAction Unit := do
  let _ ← rawCall e

end Calls

def syncDirectory (path : String) : BirdAction Unit := do
  fileCall (.openDirectory path) path
  fileCall (.syncAll path) path

def atomicSwitchCurrent (target : String) : BirdAction Unit := do
  let suffix ← uniqueSuffix
  let temporary := ".current." ++ toString suffix ++ ".tmp"
  fileCall (.symlink target temporary) temporary
  match ← attempt (fileCall (.renameLink temporary "current") "current") with
  | .error error => do
    ignore (.removeFile temporary)
    throw error
  | .ok _ => syncDirectory ""

lemma temporary_ne_current (suffix : ℕ) : ".current." ++ toString suffix ++ ".tmp" ≠ "current" := by
  intro h
  have hs := congrArg String.toList h
  simp at hs

def removeOptional (path : String) : BirdAction Unit := do
  match ← rawCall (.removeFile path) with
  | .ok _ => pure ()
  | .error .notFound => pure ()
  | .error source => throw (.birdConfigIo source.text path)

def ensureBirdLayout : BirdAction Unit := do
  fileCall (.createDirAll emptyPath) emptyPath
  match ← rawCall (.symlinkMetadata "current") with
  | .ok _ => pure ()
  | .error .notFound => atomicSwitchCurrent emptyPath
  | .error source => throw (.birdConfigIo source.text "current")

def readGeneration (path : String) (actual : Generation) : List String → BirdAction Generation
  | [] => do
    fileCall (.nextEntry path) path
    return actual
  | name :: names => do
    fileCall (.nextEntry path) path
    if name.endsWith ".conf" then do
      let content ← fileCall (.read path name) (path ++ "/" ++ name)
      readGeneration path (actual.insert name content) names
    else readGeneration path actual names

def generationMatches (path : String) (desired : Generation) : BirdAction Bool := do
  match ← rawCall (.readDir path) with
  | .ok names => do
    let actual ← readGeneration path ∅ names
    return decide (actual = desired)
  | .error .notFound => return false
  | .error source => throw (.birdConfigIo source.text path)

def temporaryName (pid suffix : ℕ) (name : String) : String :=
  "." ++ name ++ "." ++ toString pid ++ "." ++ toString suffix ++ ".tmp"

/-- No file that is still being written counts. -/
lemma temporaryName_conf (pid suffix : ℕ) (name : String) :
    (temporaryName pid suffix name).endsWith ".conf" = false := by
  rw [Bool.eq_false_iff]
  intro h
  have conf := endsWith_iff.mp h
  have tmp : ".tmp".toList <:+ (temporaryName pid suffix name).toList := by
    rw [temporaryName, String.toList_append]
    exact List.suffix_append _ _
  have shorter := List.suffix_of_suffix_length_le tmp conf (by decide)
  revert shorter
  decide

def writeAtomic (pid : ℕ) (dir name content : String) : BirdAction Unit := do
  let suffix ← uniqueSuffix
  let temporary := temporaryName pid suffix name
  let temporaryPath := dir ++ "/" ++ temporary
  let permissions ← fileCall (.metadata dir) dir
  let directoryMode := permissions &&& 0o666
  fileCall (.openFile dir temporary directoryMode) temporaryPath
  fileCall (.writeAll dir temporary content) temporaryPath
  fileCall (.flush temporaryPath) temporaryPath
  fileCall (.syncAll temporaryPath) temporaryPath
  fileCall (.setPermissions temporaryPath directoryMode) temporaryPath
  fileCall (.renameFile dir temporary name) (dir ++ "/" ++ name)

/-- Neither the empty generation nor the new one goes. -/
def removeEntry (currentName name : String) : BirdAction Unit :=
  if name = "empty" ∨ name = currentName ∨ !name.startsWith "generation-" then pure ()
  else ignore (.removeDirAll ("generations/" ++ name))

def removeEntries (currentName : String) : List String → BirdAction Unit
  | [] => ignore (.nextEntry "generations")
  | name :: names => do
    match ← rawCall (.nextEntry "generations") with
    | .error _ => pure ()
    | .ok _ => do
      removeEntry currentName name
      removeEntries currentName names

def removeOldGenerations (currentName : String) : BirdAction Unit := do
  match ← rawCall (.readDir "generations") with
  | .error _ => pure ()
  | .ok names => removeEntries currentName names

/-- Put the former target back, or remove the link if the target was not known. -/
def restoreCurrent : Option String → BirdAction Unit
  | some target => atomicSwitchCurrent target
  | none => removeOptional "current"

def rollBack (oldTarget : Option String) (reloadError : PeerError) : BirdAction Unit := do
  match ← attempt (restoreCurrent oldTarget) with
  | .error restoreError => throw (restoreFailed reloadError restoreError)
  | .ok _ => do
    let _ ← attempt reloadBird
    throw reloadError

def prepareGeneration (pid : ℕ) (path : String) (desired : Generation) : BirdAction Unit := do
  fileCall (.createDir path) path
  desired.toList.forM fun file => writeAtomic pid path file.1 file.2
  syncDirectory path

def installGeneration (suffix : ℕ) : BirdAction Unit := do
  let oldTarget ← rawCall (.readLink "current")
  atomicSwitchCurrent (generationPath suffix)
  match ← attempt reloadBird with
  | .error reloadError => rollBack oldTarget.toOption reloadError
  | .ok _ => removeOldGenerations (generationName suffix)

def syncBirdConfigsFor (localAsn : UInt32) (pid : ℕ) (peers : List Peer) (forceReload : Bool) :
    BirdAction Unit := do
  ensureBirdLayout
  match desiredGeneration localAsn peers with
  | .error error => throw error
  | .ok desired => do
    if ← generationMatches "current" desired then
      if forceReload then reloadBird else pure ()
    else do
      let suffix ← uniqueSuffix
      prepareGeneration pid (generationPath suffix) desired
      installGeneration suffix

end Autopeer.BirdCalls
