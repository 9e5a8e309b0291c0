import Autopeer.ManagerWorld

/-! `sync_bird_configs_for` step by step: the generation directories, the `current` link and what
BIRD last loaded. Each step that the system or BIRD may refuse has a fault of its own. -/
namespace Autopeer.BirdFiles
open PeerData BirdGeneration ManagerWorld

structure BirdRoot where
  /-- The `.conf` files of each generation directory. -/
  directories : String → Option Generation
  current : Option String
  loaded : Generation

/-- A function of the manager on the files; `?` is the sequencing. -/
def Disk (α : Type) : Type := BirdRoot → Except PeerError α × BirdRoot

def Disk.andThen {α β : Type} (x : Disk α) (f : α → Disk β) : Disk β := fun s =>
  match x s with
  | (.ok a, s') => f a s'
  | (.error e, s') => (.error e, s')

instance : Monad Disk where
  pure a s := (.ok a, s)
  bind := Disk.andThen

/-- The error that each step of a switch of `current` reports; `none` where it works. -/
structure SwitchFaults where
  symlink : Option PeerError
  rename : Option PeerError
  syncDirectory : Option PeerError
  deriving DecidableEq, Inhabited

/-- What one call meets. -/
structure Faults where
  createDirAll : Option PeerError
  symlinkMetadata : Option PeerError
  layout : SwitchFaults
  readGeneration : Option PeerError
  /-- The clock that names the new generation. -/
  suffix : ℕ
  createDir : Option PeerError
  writeAtomic : String → Option PeerError
  syncDirectory : Option PeerError
  /-- The target of `current` cannot be read. -/
  readLink : Bool
  switch : SwitchFaults
  reload : Option PeerError
  restore : SwitchFaults
  removeFile : Option PeerError
  reloadAgain : Option PeerError
  /-- What the removal of an old generation leaves of it. -/
  leftover : String → Option Generation
  deriving Inhabited

/-- Every step works. -/
def noFaults (suffix : ℕ) : Faults :=
  { createDirAll := none, symlinkMetadata := none, layout := ⟨none, none, none⟩,
    readGeneration := none, suffix, createDir := none, writeAtomic := fun _ => none,
    syncDirectory := none, readLink := false, switch := ⟨none, none, none⟩, reload := none,
    restore := ⟨none, none, none⟩, removeFile := none, reloadAgain := none,
    leftover := fun _ => none }

section Steps

def fail {α : Type} (error : PeerError) : Disk α := fun s => (.error error, s)

def attemptStep (fault : Option PeerError) (effect : BirdRoot → BirdRoot) : Disk Unit := fun s =>
  match fault with
  | some error => (.error error, s)
  | none => (.ok (), effect s)

def emptyPath : String := "generations/empty"

def generationName (suffix : ℕ) : String := "generation-" ++ toString suffix

def generationPath (suffix : ℕ) : String := "generations/" ++ generationName suffix

def BirdRoot.at (s : BirdRoot) (target : Option String) : Generation :=
  ((target.bind s.directories).getD ∅)

/-- The files BIRD finds under `current`. -/
def BirdRoot.content (s : BirdRoot) : Generation := s.at s.current

def BirdRoot.withFiles (s : BirdRoot) (path : String) (files : Generation) : BirdRoot :=
  { s with directories := Function.update s.directories path (some files) }

def BirdRoot.withEmpty (s : BirdRoot) : BirdRoot := s.withFiles emptyPath (s.at (some emptyPath))

/-- The layout that a call makes before anything else. -/
def BirdRoot.laidOut (s : BirdRoot) : BirdRoot :=
  { s.withEmpty with current := some (s.current.getD emptyPath) }

def BirdRoot.linkTo (s : BirdRoot) (target : String) : BirdRoot := { s with current := some target }

def BirdRoot.unlink (s : BirdRoot) : BirdRoot := { s with current := none }

def BirdRoot.load (s : BirdRoot) : BirdRoot := { s with loaded := s.content }

def atomicSwitchCurrent (f : SwitchFaults) (target : String) : Disk Unit := do
  attemptStep f.symlink id
  attemptStep f.rename fun s => s.linkTo target
  attemptStep f.syncDirectory id

def ensureBirdLayout (f : Faults) : Disk Unit := do
  attemptStep f.createDirAll BirdRoot.withEmpty
  attemptStep f.symlinkMetadata id
  fun s =>
    match s.current with
    | some _ => (.ok (), s)
    | none => atomicSwitchCurrent f.layout emptyPath s

/-- A missing directory matches nothing, not even no files. -/
def currentGenerationMatches (f : Faults) (desired : Generation) : Disk Bool := fun s =>
  match f.readGeneration with
  | some error => (.error error, s)
  | none => (.ok (s.current.bind s.directories = some desired), s)

def reloadBird (fault : Option PeerError) : Disk Unit :=
  attemptStep fault BirdRoot.load

def createDir (fault : Option PeerError) (path : String) : Disk Unit := fun s =>
  match fault with
  | some error => (.error error, s)
  | none =>
    if (s.directories path).isSome then (.error (.birdConfigIo "File exists (os error 17)" path), s)
    else (.ok (), s.withFiles path ∅)

/-- One file of the generation, written under a temporary name and renamed. -/
def writeAtomic (fault : Option PeerError) (path name content : String) : Disk Unit :=
  attemptStep fault fun s => s.withFiles path ((s.at (some path)).insert name content)

def writeFiles (fault : String → Option PeerError) (path : String) :
    List (String × String) → Disk Unit
  | [] => pure ()
  | (name, content) :: files => do
    writeAtomic (fault name) path name content
    writeFiles fault path files

def BirdRoot.withoutOld (s : BirdRoot) (leftover : String → Option Generation) (name : String) :
    BirdRoot :=
  { s with
    directories := fun path =>
      if path.startsWith "generations/generation-" && path ≠ "generations/" ++ name then
        (s.directories path).bind fun _ => leftover path
      else s.directories path }

def removeOldGenerations (f : Faults) (name : String) : Disk Unit := fun s =>
  (.ok (), s.withoutOld f.leftover name)

end Steps

def peerErrorText : PeerError → String
  | .birdConfigIo source path => "failed to write bird config to " ++ path ++ ": " ++ source
  | .birdReload stderr => "bird syntax check or reload failed. stderr: " ++ stderr
  | .validation detail => "invalid request: " ++ detail
  | .nftables detail => "nftables synchronization failed: " ++ detail
  | .database source => "Database error: " ++ source
  | .netlink source ifaceName =>
    "failed to manipulate netlink interface '" ++ ifaceName ++ "': " ++ source
  | .invalidWgPubKeyLength len =>
    "Invalid WireGuard public key: length must be exactly 44, got " ++ toString len
  | .invalidWgPubKeyBase64 source =>
    "Failed to base64 decode WireGuard public key: " ++ source
  | .unauthorizedChallenge detail => "challenge verification failed: " ++ detail
  | .signatureVerificationFailed detail => "SSH signature verification failed: " ++ detail
  | .registryMismatch => "Provided SSH key is not identical with DN42 registry records"
  | .registryUnavailable detail => "The DN42 registry is unavailable: " ++ detail
  | .notFound asn peerName =>
    "Peer '" ++ peerName ++ "' with ASN " ++ toString asn ++ " not found"
  | .alreadyExists asn peerName =>
    "Peer '" ++ peerName ++ "' with ASN " ++ toString asn ++ " already exists"

def restoreFailed (reloadError restoreError : PeerError) : PeerError :=
  .birdReload (peerErrorText reloadError ++ ". The previous generation could not be restored: " ++
    peerErrorText restoreError)

/-- Put the former target back, or remove the link, if there is one, where it was not known. -/
def restoreCurrent (f : Faults) : Option String → Disk Unit
  | some target => atomicSwitchCurrent f.restore target
  | none => attemptStep f.removeFile BirdRoot.unlink

/-- The answer to a reload that failed. -/
def rollBack (f : Faults) (oldTarget : Option String) (reloadError : PeerError) : Disk Unit := fun s =>
  match restoreCurrent f oldTarget s with
  | (.error restoreError, s') => (.error (restoreFailed reloadError restoreError), s')
  | (.ok _, s') => (.error reloadError, (reloadBird f.reloadAgain s').2)

def prepareGeneration (f : Faults) (desired : Generation) : Disk Unit := do
  createDir f.createDir (generationPath f.suffix)
  writeFiles f.writeAtomic (generationPath f.suffix) desired.toList
  attemptStep f.syncDirectory id

def readLink (f : Faults) : Disk (Option String) := fun s =>
  (.ok (if f.readLink then none else s.current), s)

def reloadOrRollBack (f : Faults) (oldTarget : Option String) : Disk Unit := fun s =>
  match reloadBird f.reload s with
  | (.error reloadError, s') => rollBack f oldTarget reloadError s'
  | (.ok _, s') => removeOldGenerations f (generationName f.suffix) s'

def installGeneration (f : Faults) : Disk Unit := do
  let oldTarget ← readLink f
  atomicSwitchCurrent f.switch (generationPath f.suffix)
  reloadOrRollBack f oldTarget

def syncBirdConfigsFor (localAsn : UInt32) (f : Faults) (peers : List Peer) (forceReload : Bool) :
    Disk Unit := do
  ensureBirdLayout f
  match desiredGeneration localAsn peers with
  | .error error => fail error
  | .ok desired => do
    if ← currentGenerationMatches f desired then
      if forceReload then reloadBird f.reload else pure ()
    else do
      prepareGeneration f desired
      installGeneration f

/-- The state as the other functions of the manager see it. -/
def BirdRoot.bird (s : BirdRoot) : Bird :=
  ⟨s.current.map fun target => s.at (some target), s.loaded⟩

end Autopeer.BirdFiles
