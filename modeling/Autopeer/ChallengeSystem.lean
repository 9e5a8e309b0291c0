import Autopeer.PeerData
import Autopeer.ProgramPool
import Autopeer.TransitionRuns

/-! Challenges: the table of nonces, the two requests that use it in a release build, and the system
of any number of them. Each SQL statement and each reading of the clock is a call of its own. -/
namespace Autopeer.ChallengeSystem
open PeerData ProgramTree ProgramPool TransitionRuns

structure NonceRow where
  nonce : String
  asn : UInt32
  expiresAt : Int64
  deriving DecidableEq, Repr

/-- The table, the permits of the registry, and a history that no call reads. -/
structure Store where
  nonces : List NonceRow
  permits : ℕ
  issued : List NonceRow
  consumed : List (NonceRow × Int64)
  /-- The last reading of the clock. -/
  clock : Int64
  deriving DecidableEq

inductive Query
  | unixTimestamp
  | generatePreshared
  | acquire
  | deleteExpired (now : Int64)
  | insertNonce (row : NonceRow)
  | deleteNonce (row : NonceRow) (now : Int64)
  | tryAcquire
  | release
  | checkRegistry (asn : UInt32) (publicKey : String)
  deriving DecidableEq

abbrev Result : Query → Type
  | .unixTimestamp => Int64
  | .generatePreshared => String
  | .acquire => Except PeerError Unit
  | .deleteExpired _ => Except PeerError Unit
  | .insertNonce _ => Except PeerError Bool
  | .deleteNonce .. => Except PeerError Bool
  | .tryAcquire => Bool
  | .release => Unit
  | .checkRegistry .. => Except PeerError Bool

inductive Event
  | reads (time : Int64)
  | generates (nonce : String)
  | ok
  | fails (error : PeerError)
  /-- A deletion takes effect, but an error is reported. For the insertion this is left out: the row
  would have a nonce that nobody was told. -/
  | late (error : PeerError)
  | registry (authorized : Bool)

namespace Store
variable (w : Store)

/-- `DELETE ... WHERE expires_at < $1`. -/
def removeExpired (now : Int64) : Store :=
  { w with nonces := w.nonces.filter fun r => ¬ r.expiresAt < now }

/-- `INSERT ... ON CONFLICT DO NOTHING` under the primary key on the nonce. -/
def insert (row : NonceRow) : Bool × Store :=
  if w.nonces.any (·.nonce = row.nonce) then (false, w)
  else (true, { w with nonces := w.nonces ++ [row], issued := w.issued ++ [row] })

/-- `DELETE ... WHERE nonce = $1 AND asn = $2 AND expires_at = $3 AND expires_at >= $4`. -/
def consume (row : NonceRow) (now : Int64) : Bool × Store :=
  let matched := w.nonces.filter fun r => r = row ∧ r.expiresAt ≥ now
  (matched.length == 1,
    { w with
      nonces := w.nonces.filter fun r => ¬(r = row ∧ r.expiresAt ≥ now)
      consumed := w.consumed ++ matched.map fun r => (r, now) })

end Store

/-- The result of a query; `none` where the event is not one of the query's. -/
def exec : Event → (e : Query) → Store → Option (Result e × Store)
  | .reads time, .unixTimestamp, w => some (time, { w with clock := time })
  | .generates nonce, .generatePreshared, w => some (nonce, w)
  | .ok, .acquire, w => some (.ok (), w)
  | .ok, .deleteExpired now, w => some (.ok (), w.removeExpired now)
  | .ok, .insertNonce row, w => some (.ok (w.insert row).1, (w.insert row).2)
  | .ok, .deleteNonce row now, w => some (.ok (w.consume row now).1, (w.consume row now).2)
  | .ok, .tryAcquire, w =>
    if w.permits = 0 then some (false, w) else some (true, { w with permits := w.permits - 1 })
  | .ok, .release, w => some ((), { w with permits := w.permits + 1 })
  | .registry authorized, .checkRegistry .., w => some (.ok authorized, w)
  | .fails error, .acquire, w => some (.error error, w)
  | .fails error, .deleteExpired _, w => some (.error error, w)
  | .fails error, .insertNonce _, w => some (.error error, w)
  | .fails error, .deleteNonce .., w => some (.error error, w)
  | .fails error, .checkRegistry .., w => some (.error error, w)
  | .late error, .deleteExpired now, w => some (.error error, w.removeExpired now)
  | .late error, .deleteNonce row now, w => some (.error error, (w.consume row now).2)
  | _, _, _ => none

section Programs

abbrev Authorizer (α : Type) := Action PeerError Query Result α

/-- A query that cannot fail. -/
def ask (e : Query) : Authorizer (Result e) := ExceptT.mk (.call e fun r => .done (.ok r))

def acquire : Authorizer Unit := ExceptT.mk (.call .acquire .done)

def insertNonce (asn : UInt32) (nonce : String) (expiresAt : Int64) : Authorizer Bool := do
  acquire
  let now ← ask .unixTimestamp
  ExceptT.mk (.call (.deleteExpired now) .done)
  ExceptT.mk (.call (.insertNonce ⟨nonce, asn, expiresAt⟩) .done)

def consumeNonce (asn : UInt32) (nonce : String) (expiresAt : Int64) : Authorizer Bool := do
  acquire
  let now ← ask .unixTimestamp
  ExceptT.mk (.call (.deleteNonce ⟨nonce, asn, expiresAt⟩ now) .done)

def challengeTtlSecs : Int64 := 300

/-- The tries still to go. -/
def tryNonces (asn : UInt32) (expiresAt : Int64) : ℕ → Authorizer (String × Int64)
  | 0 => throw (.unauthorizedChallenge "The server could not allocate a unique nonce")
  | n + 1 => do
    let nonce ← ask .generatePreshared
    if ← insertNonce asn nonce expiresAt then return (nonce, expiresAt)
    else tryNonces asn expiresAt n

def issueChallenge (asn : UInt32) : Authorizer (String × Int64) := do
  let now ← ask .unixTimestamp
  tryNonces asn (now + challengeTtlSecs) 4

/-- Hold a permit of the registry for the time of `body`. -/
def withPermit (body : Authorizer Unit) : Authorizer Unit :=
  ExceptT.mk (.call .tryAcquire fun permit =>
    if permit then body.run >>= fun r => .call .release fun _ => .done r
    else .done (.error (.registryUnavailable "Too many registry checks are active")))

/-- `verify` is the check of a signature: public key, signature, message. -/
def authorizeRequest (verify : String → String → String → Except PeerError Unit) (asn : UInt32)
    (publicKey signature nonce : String) (expiresAt : Int64) (expectedMessage : String) :
    Authorizer Unit := do
  let now ← ask .unixTimestamp
  if expiresAt < now then throw (.unauthorizedChallenge "The challenge expired")
  else
    match verify publicKey signature expectedMessage with
    | .error error => throw error
    | .ok _ =>
      withPermit do
        if ← consumeNonce asn nonce expiresAt then
          if ← ExceptT.mk (.call (.checkRegistry asn publicKey) .done) then return
          else throw .registryMismatch
        else
          throw (.unauthorizedChallenge "The challenge is expired, unknown, or already used")

end Programs

inductive Request
  | issueChallenge (asn : UInt32)
  | authorizeRequest (asn : UInt32) (publicKey signature nonce : String) (expiresAt : Int64)
      (expectedMessage : String)
  deriving DecidableEq

inductive Response
  | issued (result : Except PeerError (String × Int64))
  | authorized (result : Except PeerError Unit)

variable (verify : String → String → String → Except PeerError Unit)

def program : Request → Program Query Result Response
  | .issueChallenge asn => (issueChallenge asn).run >>= fun r => .done (.issued r)
  | .authorizeRequest asn publicKey signature nonce expiresAt expectedMessage =>
    (authorizeRequest verify asn publicKey signature nonce expiresAt expectedMessage).run >>=
      fun r => .done (.authorized r)

abbrev System := Pool Store Request Query Result Response

inductive Label
  | task (index : ℕ) (event : Event)
  | start (request : Request)

def step : Label → System → Option System
  | .task index event, s => s.stepTask exec index event
  | .start request, s => some (s.spawn request (program verify request))

/-- No challenge was issued yet. -/
def initial (permits : ℕ) (clock : Int64) : System :=
  ⟨{ nonces := [], permits, issued := [], consumed := [], clock }, []⟩

/-- A step that reads the clock reads no less than the reading before. -/
def Advances (s : System) : Label → Prop
  | .task _ (.reads time) => s.world.clock ≤ time
  | _ => True

instance (s : System) : (l : Label) → Decidable (Advances s l)
  | .task _ (.reads time) => inferInstanceAs (Decidable (s.world.clock ≤ time))
  | .task _ (.generates _) => .isTrue trivial
  | .task _ .ok => .isTrue trivial
  | .task _ (.fails _) => .isTrue trivial
  | .task _ (.late _) => .isTrue trivial
  | .task _ (.registry _) => .isTrue trivial
  | .start _ => .isTrue trivial

/-- Call `i` was an authorization that returned Ok. -/
def Authorized (s : System) (i : ℕ) (row : NonceRow) (publicKey signature message : String) : Prop :=
  s.tasks[i]? = some (.authorizeRequest row.asn publicKey signature row.nonce row.expiresAt message,
    .done (.authorized (.ok ())))

/-- Call `i` was an issuance that returned this challenge. -/
def Issued (s : System) (i : ℕ) (row : NonceRow) : Prop :=
  s.tasks[i]? = some (.issueChallenge row.asn, .done (.issued (.ok (row.nonce, row.expiresAt))))

variable {s : System} {i : ℕ} {row : NonceRow}

instance {publicKey signature message : String} :
    Decidable (Authorized s i row publicKey signature message) :=
  match h : s.tasks[i]? with
  | some (request, .done (.authorized (.ok ()))) =>
    decidable_of_iff (request =
      .authorizeRequest row.asn publicKey signature row.nonce row.expiresAt message)
      (by simp [Authorized, h])
  | some (_, .done (.authorized (.error _))) => .isFalse (by simp [Authorized, h])
  | some (_, .done (.issued _)) => .isFalse (by simp [Authorized, h])
  | some (_, .call ..) => .isFalse (by simp [Authorized, h])
  | none => .isFalse (by simp [Authorized, h])

instance : Decidable (Issued s i row) :=
  match h : s.tasks[i]? with
  | some (request, .done (.issued (.ok (nonce, expiresAt)))) =>
    decidable_of_iff (request = .issueChallenge row.asn ∧ nonce = row.nonce ∧
      expiresAt = row.expiresAt) (by simp [Issued, h])
  | some (_, .done (.issued (.error _))) => .isFalse (by simp [Issued, h])
  | some (_, .done (.authorized _)) => .isFalse (by simp [Issued, h])
  | some (_, .call ..) => .isFalse (by simp [Issued, h])
  | none => .isFalse (by simp [Issued, h])

end Autopeer.ChallengeSystem
