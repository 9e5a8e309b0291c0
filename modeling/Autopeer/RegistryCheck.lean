import Autopeer.RequestParsing
import Autopeer.TextSlices

/-! The question to the registry: does a maintainer of the AS number list the key? The registry is a
function from URLs to replies, and the parser of a PGP key is a parameter. -/
namespace Autopeer.RegistryCheck
open RequestParsing (trim)
open TextSlices

inductive Json
  | null
  | bool (b : Bool)
  | number (text : String)
  | string (text : String)
  | array (items : List Json)
  | object (fields : List (String × Json))

namespace Json

def get (key : String) : Json → Option Json
  | .object fields => (fields.find? fun field => field.1 = key).map Prod.snd
  | _ => none

def asArray : Json → Option (List Json)
  | .array items => some items
  | _ => none

def asStr : Json → Option String
  | .string text => some text
  | _ => none

lemma asArray_eq_some {j : Json} {items : List Json} : j.asArray = some items ↔ j = .array items := by
  cases j <;> simp [asArray]

lemma asStr_eq_some {j : Json} {text : String} : j.asStr = some text ↔ j = .string text := by
  cases j <;> simp [asStr]

end Json

inductive Reply
  | failed
  /-- A status and a body; the body is absent where it is no JSON. -/
  | answered (status : ℕ) (body : Option Json)

inductive RegistryError
  | send
  | status (code : ℕ)
  | decode
  | text (detail : String)
  deriving DecidableEq

structure Registry where
  registryUrl : String
  get : String → Reply
  /-- The fingerprint of a PGP key block that parses. -/
  fingerprint : String → Option (List UInt8)

section Expected

def hexDigits (b : UInt8) : List Char := [Nat.digitChar (b.toNat / 16), Nat.digitChar (b.toNat % 16)]

/-- Upper-case hexadecimal. -/
def hexUpper (bytes : List UInt8) : String :=
  String.ofList ((bytes.flatMap hexDigits).map Char.toUpper)

def isPgp (key : String) : Bool :=
  (find "BEGIN PGP PUBLIC KEY BLOCK".toList key.toList).isSome

def expectedAuthStrings (r : Registry) (key : String) : List String :=
  trim key ::
    if isPgp key then
      match r.fingerprint key with
      | some bytes => ["pgp-fingerprint " ++ hexUpper bytes]
      | none => []
    else []

end Expected

section Attributes
variable (r : Registry)

/-- The array of attributes of an object in a document. -/
def attributesOf (document : Json) (objectKey : String) : Option (List Json) :=
  ((document.get objectKey).bind (·.get "Attributes")).bind Json.asArray

def autNumKey (asn : UInt32) : String := "aut-num/AS" ++ toString asn

def mntnerKey (maintainer : String) : String := "mntner/" ++ maintainer

/-- `error_for_status` turns client and server errors away. -/
def autNumAttributes (asn : UInt32) : Except RegistryError (List Json) :=
  match r.get (r.registryUrl ++ "/aut-num/AS" ++ toString asn) with
  | .failed => .error .send
  | .answered status body =>
    if 400 ≤ status ∧ status < 600 then .error (.status status)
    else
      match body with
      | none => .error .decode
      | some document =>
        match attributesOf document (autNumKey asn) with
        | none => .error (.text "The registry response has no aut-num attributes")
        | some attributes => .ok attributes

/-- The attributes of a maintainer; absent where the loop goes on to the next one. -/
def mntnerAttributes (maintainer : String) : Option (List Json) :=
  match r.get (r.registryUrl ++ "/mntner/" ++ maintainer) with
  | .failed => none
  | .answered status body =>
    if 200 ≤ status ∧ status < 300 then
      match body with
      | none => none
      | some document => attributesOf document (mntnerKey maintainer)
    else none

/-- The text value of an attribute with this name. -/
def valueOf (name : String) (item : Json) : Option String :=
  match item.asArray with
  | some [first, second] => if first.asStr = some name then second.asStr else none
  | _ => none

end Attributes

section Search
variable (r : Registry)

def marker : List Char := "(mntner/".toList

/-- The maintainer that a value names, if it names one; the slice that a value asks for may have
no value, which is a panic. -/
def maintainerOf (value : String) : Option (Option (List Char)) :=
  match find marker value.toList with
  | none => none
  | some start =>
    if value.toList.getLast? = some ')' then
      some (slice value.toList (start + 8) (value.utf8ByteSize - 1))
    else none

/-- The maintainers in the order of the attributes; `none` is a panic. -/
def maintainers : List Json → Option (List String)
  | [] => some []
  | item :: attributes =>
    match (valueOf "mnt-by" item).bind maintainerOf with
    | none => maintainers attributes
    | some sliced =>
      match sliced with
      | none => none
      | some name => (maintainers attributes).map (String.ofList name :: ·)

def listsKey (expected : List String) (item : Json) : Bool :=
  match valueOf "auth" item with
  | none => false
  | some value => expected.any (· == trim value)

def anyMaintainer (expected : List String) : List String → Bool
  | [] => false
  | maintainer :: rest =>
    match mntnerAttributes r maintainer with
    | none => anyMaintainer expected rest
    | some attributes =>
      if attributes.any (listsKey expected) then true else anyMaintainer expected rest

/-- `none` is a panic. -/
def checkRegistryForAsnAndPubkey (asn : UInt32) (expectedPubkey : String) :
    Option (Except RegistryError Bool) :=
  match autNumAttributes r asn with
  | .error e => some (.error e)
  | .ok attributes =>
    match maintainers attributes with
    | none => none
    | some names => some (.ok (anyMaintainer r (expectedAuthStrings r expectedPubkey) names))

end Search

end Autopeer.RegistryCheck
