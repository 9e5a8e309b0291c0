import Autopeer.Ipv6Text
import Autopeer.RequestParsing

/-! The text that a client signs for a mutation. Equal texts come from equal requests: each field
is a line of its own, except the nonce, which is the last but one and may hold line breaks. -/
namespace Autopeer.SignedMessage
open Ipv6 PeerData RequestParsing LineText

def linkLocalMessage : Option (Ipv6Addr × Ipv6Addr) → String
  | some (l, r) => "manual:" ++ l.display ++ ":" ++ r.display
  | none => "auto"

def createEndpoint (endpoint : Option String) : String := endpoint.getD "none"

def createMtu : Option UInt16 → String
  | some m => toString m
  | none => "default"

def buildCreateMessage (asn : UInt32) (peerName : String) (pubkey : WgPubKey)
    (endpoint : Option String) (linkLocal : Option (Ipv6Addr × Ipv6Addr)) (mtu : Option UInt16)
    (nonce : String) (expiresAt : Int64) : String :=
  lines ["DN42-AUTOPEER-V3", "operation:create", "asn:" ++ toString asn, "peer_name:" ++ peerName,
    "pubkey:" ++ pubkey.text, "endpoint:" ++ createEndpoint endpoint,
    "link_local:" ++ linkLocalMessage linkLocal, "mtu:" ++ createMtu mtu, "nonce:" ++ nonce,
    "expires_at:" ++ toString expiresAt.toInt]

def updateEndpoint : Option (Option String) → String
  | none => "unchanged"
  | some none => "clear"
  | some (some value) => "set:" ++ value

def updateMtu : Option (Option UInt16) → String
  | none => "unchanged"
  | some none => "default"
  | some (some value) => "set:" ++ toString value

def buildUpdateMessage (asn : UInt32) (peerName : String) (pubkey : WgPubKey)
    (endpoint : Option (Option String)) (linkLocal : Option (Ipv6Addr × Ipv6Addr))
    (mtu : Option (Option UInt16)) (nonce : String) (expiresAt : Int64) : String :=
  lines ["DN42-AUTOPEER-V3", "operation:update", "asn:" ++ toString asn, "peer_name:" ++ peerName,
    "pubkey:" ++ pubkey.text, "endpoint:" ++ updateEndpoint endpoint,
    "link_local:" ++ linkLocalMessage linkLocal, "mtu:" ++ updateMtu mtu, "nonce:" ++ nonce,
    "expires_at:" ++ toString expiresAt.toInt]

def buildDeleteMessage (asn : UInt32) (peerName nonce : String) (expiresAt : Int64) : String :=
  lines ["DN42-AUTOPEER-V3", "operation:delete", "asn:" ++ toString asn, "peer_name:" ++ peerName,
    "nonce:" ++ nonce, "expires_at:" ++ toString expiresAt.toInt]

/-- The fields of a mutation, as the handler has parsed them. -/
inductive Mutation
  | create (asn : UInt32) (peerName : String) (pubkey : WgPubKey) (endpoint : Option String)
      (linkLocal : Option (Ipv6Addr × Ipv6Addr)) (mtu : Option UInt16)
  | update (asn : UInt32) (peerName : String) (pubkey : WgPubKey)
      (endpoint : Option (Option String)) (linkLocal : Option (Ipv6Addr × Ipv6Addr))
      (mtu : Option (Option UInt16))
  | delete (asn : UInt32) (peerName : String)
  deriving DecidableEq

def Mutation.message (m : Mutation) (nonce : String) (expiresAt : Int64) : String :=
  match m with
  | .create asn peerName pubkey endpoint linkLocal mtu =>
    buildCreateMessage asn peerName pubkey endpoint linkLocal mtu nonce expiresAt
  | .update asn peerName pubkey endpoint linkLocal mtu =>
    buildUpdateMessage asn peerName pubkey endpoint linkLocal mtu nonce expiresAt
  | .delete asn peerName => buildDeleteMessage asn peerName nonce expiresAt

/-- What the text must determine: of the link-local setting only its mode. -/
def Mutation.SameRequest : Mutation → Mutation → Prop
  | .create asn peerName pubkey endpoint linkLocal mtu,
    .create asn' peerName' pubkey' endpoint' linkLocal' mtu' =>
    asn = asn' ∧ peerName = peerName' ∧ pubkey = pubkey' ∧ endpoint = endpoint' ∧
      linkLocal.isSome = linkLocal'.isSome ∧ mtu = mtu'
  | .update asn peerName pubkey endpoint linkLocal mtu,
    .update asn' peerName' pubkey' endpoint' linkLocal' mtu' =>
    asn = asn' ∧ peerName = peerName' ∧ pubkey = pubkey' ∧ endpoint = endpoint' ∧
      linkLocal.isSome = linkLocal'.isSome ∧ mtu = mtu'
  | .delete asn peerName, .delete asn' peerName' => asn = asn' ∧ peerName = peerName'
  | _, _ => False

section Parsed
variable (decode : String → Except String (List UInt8)) (parseUrl : String → Option Url)
  (parseIpv6 : String → Option Ipv6Addr)

def ParsedName (peerName : String) : Prop := ∃ text, parsePeerName text = .ok peerName

def ParsedKey (pubkey : WgPubKey) : Prop := ∃ text, WgPubKey.tryFrom decode text = .ok pubkey

def ParsedLinkLocal (linkLocal : Option (Ipv6Addr × Ipv6Addr)) : Prop :=
  ∃ manualLla l r, parseLinkLocal parseIpv6 manualLla l r = .ok linkLocal

/-- The fields passed the parsers of the handler. -/
def Mutation.Parsed : Mutation → Prop
  | .create _ peerName pubkey endpoint linkLocal _ =>
    ParsedName peerName ∧ ParsedKey decode pubkey ∧
      (∃ text, parseEndpoint parseUrl text = .ok endpoint) ∧ ParsedLinkLocal parseIpv6 linkLocal
  | .update _ peerName pubkey endpoint linkLocal _ =>
    ParsedName peerName ∧ ParsedKey decode pubkey ∧
      (∃ text, parseEndpointUpdate parseUrl text = .ok endpoint) ∧ ParsedLinkLocal parseIpv6 linkLocal
  | .delete _ peerName => ParsedName peerName

end Parsed

section OneLine

lemma oneLine_peerName {peerName : String} (h : ParsedName peerName) : OneLine peerName := by
  obtain ⟨text, h⟩ := h
  intro hm
  have := (parsePeerName_ok h).2.2.1 _ hm
  exact absurd this (by decide)

lemma oneLine_display (a : Ipv6Addr) : OneLine a.display :=
  Ipv6Text.notMem_display (fun _ => Nat.digitChar_ne _ (by decide)) (by decide) (by decide) a

lemma oneLine_linkLocalMessage (l : Option (Ipv6Addr × Ipv6Addr)) : OneLine (linkLocalMessage l) := by
  cases l with
  | none => decide
  | some l =>
    simp only [linkLocalMessage, oneLine_append]
    exact ⟨⟨⟨by decide, oneLine_display _⟩, by decide⟩, oneLine_display _⟩

lemma oneLine_createMtu (mtu : Option UInt16) : OneLine (createMtu mtu) := by
  cases mtu with
  | none => decide
  | some m => exact oneLine_natRepr _

lemma oneLine_updateMtu (mtu : Option (Option UInt16)) : OneLine (updateMtu mtu) := by
  match mtu with
  | none => decide
  | some none => decide
  | some (some m) => exact oneLine_append.mpr ⟨by decide, oneLine_natRepr _⟩

/-- A text of one line with a colon in it. -/
structure EndpointText (s : String) : Prop where
  oneLine : OneLine s
  colon : ':' ∈ s.toList

variable {parseUrl : String → Option Url}

lemma toLower_ne_newline {c : Char} (h : c ≠ '\n') : c.toLower ≠ '\n' := by
  unfold Char.toLower
  split
  · rename_i hu
    intro he
    have hv : (c.val + ('a'.val - 'A'.val)).toNat = ('\n').val.toNat := by
      rw [← congrArg Char.val he]
    have low : 65 ≤ c.val.toNat := UInt32.le_iff_toNat_le.mp hu.1
    have high : c.val.toNat ≤ 90 := UInt32.le_iff_toNat_le.mp hu.2
    rw [UInt32.toNat_add, show ('a'.val - 'A'.val).toNat = 32 from rfl,
      show ('\n').val.toNat = 10 from rfl] at hv
    omega
  · exact h

lemma oneLine_toAsciiLowercase {text : String} (h : OneLine text) : OneLine (toAsciiLowercase text) := by
  rw [toAsciiLowercase, oneLine_ofList]
  intro hm
  obtain ⟨c, hc, he⟩ := List.mem_map.mp hm
  exact toLower_ne_newline (fun hn => h (hn ▸ hc)) he

/-- The domain names that the URL parser returns have no line break. -/
def OneLineHosts (parseUrl : String → Option Url) : Prop :=
  ∀ text url host, parseUrl text = some url → url.host = some (.domain host) → OneLine host

theorem parseEndpointValue_ok (hosts : OneLineHosts parseUrl) {text value : String}
    (h : parseEndpointValue parseUrl text = .ok value) : EndpointText value := by
  unfold parseEndpointValue at h
  split at h
  · cases h
  rename_i url hurl
  split at h
  · cases h
  split at h
  · cases h
  rename_i port hport
  split at h
  · cases h
  rename_i host hhost
  cases h
  have digits : OneLine (toString port) := oneLine_natRepr _
  cases host with
  | domain name =>
    refine ⟨?_, by simp [endpointText]⟩
    simp only [endpointText, oneLine_append]
    exact ⟨⟨oneLine_toAsciiLowercase (hosts _ _ _ hurl hhost), by decide⟩, digits⟩
  | ipv4 a b c d =>
    refine ⟨?_, by simp [endpointText]⟩
    simp only [endpointText, ipv4Display, oneLine_append]
    refine ⟨⟨oneLine_intercalate (by decide) fun f hf => ?_, by decide⟩, digits⟩
    obtain ⟨s, -, rfl⟩ := List.mem_map.mp hf
    exact oneLine_natRepr _
  | ipv6 a =>
    refine ⟨?_, by simp [endpointText]⟩
    simp only [endpointText, oneLine_append]
    exact ⟨⟨⟨by decide, oneLine_display a⟩, by decide⟩, digits⟩

lemma parseEndpoint_ok (hosts : OneLineHosts parseUrl) {text : Option String} {value : String}
    (h : parseEndpoint parseUrl text = .ok (some value)) : EndpointText value := by
  cases text with
  | none => cases h
  | some text =>
    simp only [parseEndpoint] at h
    cases hv : parseEndpointValue parseUrl text with
    | error e =>
      rw [hv] at h
      cases h
    | ok v =>
      rw [hv] at h
      cases h
      exact parseEndpointValue_ok hosts hv

lemma parseEndpointUpdate_ok (hosts : OneLineHosts parseUrl) {text : Option (Option String)}
    {value : String} (h : parseEndpointUpdate parseUrl text = .ok (some (some value))) :
    EndpointText value := by
  cases text with
  | none => cases h
  | some text =>
    simp only [parseEndpointUpdate] at h
    cases hv : parseEndpoint parseUrl text with
    | error e =>
      rw [hv] at h
      cases h
    | ok v =>
      rw [hv] at h
      cases h
      exact parseEndpoint_ok hosts hv

lemma EndpointText.ne_none {s : String} (h : EndpointText s) : s ≠ "none" := by
  rintro rfl
  exact absurd h.colon (by decide)

lemma oneLine_createEndpoint {endpoint : Option String}
    (h : ∀ value, endpoint = some value → EndpointText value) : OneLine (createEndpoint endpoint) := by
  cases endpoint with
  | none => decide
  | some value => exact (h value rfl).oneLine

lemma oneLine_updateEndpoint {endpoint : Option (Option String)}
    (h : ∀ value, endpoint = some (some value) → EndpointText value) :
    OneLine (updateEndpoint endpoint) := by
  match endpoint with
  | none => decide
  | some none => decide
  | some (some value) => exact oneLine_append.mpr ⟨by decide, (h value rfl).oneLine⟩

end OneLine

section Fields

lemma linkLocalMessage_mode {l l' : Option (Ipv6Addr × Ipv6Addr)}
    (h : linkLocalMessage l = linkLocalMessage l') : l.isSome = l'.isSome := by
  have first : ∀ l, (linkLocalMessage l).toList.head? = some (if l.isSome then 'm' else 'a') := by
    intro l
    cases l with
    | none => decide
    | some l => simp [linkLocalMessage, String.append_assoc]
  have hh := first l
  rw [h, first l'] at hh
  cases l <;> cases l' <;> simp_all

lemma createEndpoint_inj {e e' : Option String} (h : ∀ v, e = some v → EndpointText v)
    (h' : ∀ v, e' = some v → EndpointText v) (he : createEndpoint e = createEndpoint e') : e = e' := by
  cases e with
  | none =>
    cases e' with
    | none => rfl
    | some v => exact absurd he.symm (h' v rfl).ne_none
  | some v =>
    cases e' with
    | none => exact absurd he (h v rfl).ne_none
    | some v' => exact congrArg some he

lemma natRepr_ne_default (n : ℕ) : Nat.repr n ≠ "default" := by
  intro h
  have hd : 'd' ∈ (Nat.repr n).toList := by
    rw [h]
    decide
  exact notMem_natRepr (by decide) hd

lemma createMtu_inj {m m' : Option UInt16} (h : createMtu m = createMtu m') : m = m' := by
  cases m with
  | none =>
    cases m' with
    | none => rfl
    | some b => exact absurd h.symm (natRepr_ne_default _)
  | some a =>
    cases m' with
    | none => exact absurd h (natRepr_ne_default _)
    | some b => exact congrArg some (uInt16_toString_injective h)

/-- A value set by an update differs from the keywords by its first letter. -/
lemma set_ne {s keyword : String} (h : keyword.toList.head? ≠ some 's') : "set:" ++ s ≠ keyword := by
  rintro rfl
  exact h (by simp)

lemma updateEndpoint_inj {e e' : Option (Option String)} (h : updateEndpoint e = updateEndpoint e') :
    e = e' := by
  match e, e' with
  | none, none => rfl
  | none, some none => exact absurd h (by decide)
  | none, some (some v) => exact absurd h.symm (set_ne (by decide))
  | some none, none => exact absurd h (by decide)
  | some none, some none => rfl
  | some none, some (some v) => exact absurd h.symm (set_ne (by decide))
  | some (some v), none => exact absurd h (set_ne (by decide))
  | some (some v), some none => exact absurd h (set_ne (by decide))
  | some (some v), some (some v') => rw [(String.append_right_inj _).mp h]

lemma updateMtu_inj {m m' : Option (Option UInt16)} (h : updateMtu m = updateMtu m') : m = m' := by
  match m, m' with
  | none, none => rfl
  | none, some none => exact absurd h (by decide)
  | none, some (some v) => exact absurd h.symm (set_ne (by decide))
  | some none, none => exact absurd h (by decide)
  | some none, some none => rfl
  | some none, some (some v) => exact absurd h.symm (set_ne (by decide))
  | some (some v), none => exact absurd h (set_ne (by decide))
  | some (some v), some none => exact absurd h (set_ne (by decide))
  | some (some v), some (some v') => rw [uInt16_toString_injective ((String.append_right_inj _).mp h)]

lemma toString_expires_inj {a b : Int64} (h : toString a.toInt = toString b.toInt) : a = b :=
  Int64.toInt_inj.mp (Int.repr_inj.mp h)

lemma key_ext {k k' : WgPubKey} (h : k.text = k'.text) : k = k' := by
  cases k
  cases k'
  exact congrArg _ h

end Fields

section Binding
variable {decode : String → Except String (List UInt8)} {parseUrl : String → Option Url}
  {parseIpv6 : String → Option Ipv6Addr}

/-- The lines of a message before its nonce. -/
def Mutation.fields : Mutation → List String
  | .create asn peerName pubkey endpoint linkLocal mtu =>
    ["DN42-AUTOPEER-V3", "operation:create", "asn:" ++ toString asn, "peer_name:" ++ peerName,
      "pubkey:" ++ pubkey.text, "endpoint:" ++ createEndpoint endpoint,
      "link_local:" ++ linkLocalMessage linkLocal, "mtu:" ++ createMtu mtu]
  | .update asn peerName pubkey endpoint linkLocal mtu =>
    ["DN42-AUTOPEER-V3", "operation:update", "asn:" ++ toString asn, "peer_name:" ++ peerName,
      "pubkey:" ++ pubkey.text, "endpoint:" ++ updateEndpoint endpoint,
      "link_local:" ++ linkLocalMessage linkLocal, "mtu:" ++ updateMtu mtu]
  | .delete asn peerName =>
    ["DN42-AUTOPEER-V3", "operation:delete", "asn:" ++ toString asn, "peer_name:" ++ peerName]

lemma message_eq (m : Mutation) (nonce : String) (expiresAt : Int64) :
    m.message nonce expiresAt =
      lines (m.fields ++ ["nonce:" ++ nonce, "expires_at:" ++ toString expiresAt.toInt]) := by
  cases m <;> rfl

/-- No base64 text has a line break. -/
def OneLineKeys (decode : String → Except String (List UInt8)) : Prop :=
  ∀ text bytes, decode text = .ok bytes → OneLine text

lemma oneLine_key (keys : OneLineKeys decode) {key : WgPubKey} (h : ParsedKey decode key) :
    OneLine key.text := by
  obtain ⟨text, h⟩ := h
  obtain ⟨ht, bytes, hd⟩ := tryFrom_ok h
  exact ht ▸ keys text bytes hd

/-- Every field of a parsed request is one line. -/
theorem oneLine_fields (keys : OneLineKeys decode) (hosts : OneLineHosts parseUrl) {m : Mutation}
    (h : m.Parsed decode parseUrl parseIpv6) : ∀ f ∈ m.fields, OneLine f := by
  have asnLine : ∀ asn : UInt32, OneLine (toString asn) := fun _ => oneLine_natRepr _
  cases m with
  | create asn peerName pubkey endpoint linkLocal mtu =>
    obtain ⟨hname, hkey, ⟨text, hend⟩, -⟩ := h
    have hvalue : ∀ v, endpoint = some v → EndpointText v := by
      rintro v rfl
      exact parseEndpoint_ok hosts hend
    simp only [Mutation.fields, List.forall_mem_cons, oneLine_append]
    exact ⟨by decide, by decide, ⟨by decide, asnLine asn⟩, ⟨by decide, oneLine_peerName hname⟩,
      ⟨by decide, oneLine_key keys hkey⟩, ⟨by decide, oneLine_createEndpoint hvalue⟩,
      ⟨by decide, oneLine_linkLocalMessage _⟩, ⟨by decide, oneLine_createMtu _⟩, by simp⟩
  | update asn peerName pubkey endpoint linkLocal mtu =>
    obtain ⟨hname, hkey, ⟨text, hend⟩, -⟩ := h
    have hvalue : ∀ v, endpoint = some (some v) → EndpointText v := by
      rintro v rfl
      exact parseEndpointUpdate_ok hosts hend
    simp only [Mutation.fields, List.forall_mem_cons, oneLine_append]
    exact ⟨by decide, by decide, ⟨by decide, asnLine asn⟩, ⟨by decide, oneLine_peerName hname⟩,
      ⟨by decide, oneLine_key keys hkey⟩, ⟨by decide, oneLine_updateEndpoint hvalue⟩,
      ⟨by decide, oneLine_linkLocalMessage _⟩, ⟨by decide, oneLine_updateMtu _⟩, by simp⟩
  | delete asn peerName =>
    simp only [Mutation.fields, List.forall_mem_cons, oneLine_append]
    exact ⟨by decide, by decide, ⟨by decide, asnLine asn⟩, ⟨by decide, oneLine_peerName h⟩, by simp⟩

/-- Fields that agree come from the same request. -/
theorem sameRequest_of_fields {m m' : Mutation} (hosts : OneLineHosts parseUrl)
    (h : m.Parsed decode parseUrl parseIpv6) (h' : m'.Parsed decode parseUrl parseIpv6)
    (hf : m.fields = m'.fields) : m.SameRequest m' := by
  cases m with
  | create asn peerName pubkey endpoint linkLocal mtu =>
    cases m' with
    | create asn' peerName' pubkey' endpoint' linkLocal' mtu' =>
      obtain ⟨-, -, ⟨text, hend⟩, -⟩ := h
      obtain ⟨-, -, ⟨text', hend'⟩, -⟩ := h'
      simp only [Mutation.fields, List.cons.injEq, String.append_right_inj, true_and, and_true] at hf
      obtain ⟨hasn, hname, hkey, hendpoint, hlink, hmtu⟩ := hf
      refine ⟨uInt32_toString_injective hasn, hname, key_ext hkey, createEndpoint_inj ?_ ?_ hendpoint,
        linkLocalMessage_mode hlink, createMtu_inj hmtu⟩
      · rintro v rfl
        exact parseEndpoint_ok hosts hend
      · rintro v rfl
        exact parseEndpoint_ok hosts hend'
    | update _ _ _ _ _ _ => exact absurd (List.cons.inj (List.cons.inj hf).2).1 (by decide)
    | delete _ _ => exact absurd (List.cons.inj (List.cons.inj hf).2).1 (by decide)
  | update asn peerName pubkey endpoint linkLocal mtu =>
    cases m' with
    | update asn' peerName' pubkey' endpoint' linkLocal' mtu' =>
      simp only [Mutation.fields, List.cons.injEq, String.append_right_inj, true_and, and_true] at hf
      obtain ⟨hasn, hname, hkey, hendpoint, hlink, hmtu⟩ := hf
      exact ⟨uInt32_toString_injective hasn, hname, key_ext hkey, updateEndpoint_inj hendpoint,
        linkLocalMessage_mode hlink, updateMtu_inj hmtu⟩
    | create _ _ _ _ _ _ => exact absurd (List.cons.inj (List.cons.inj hf).2).1 (by decide)
    | delete _ _ => exact absurd (List.cons.inj (List.cons.inj hf).2).1 (by decide)
  | delete asn peerName =>
    cases m' with
    | delete asn' peerName' =>
      simp only [Mutation.fields, List.cons.injEq, String.append_right_inj, true_and, and_true] at hf
      exact ⟨uInt32_toString_injective hf.1, hf.2⟩
    | create _ _ _ _ _ _ => exact absurd (List.cons.inj (List.cons.inj hf).2).1 (by decide)
    | update _ _ _ _ _ _ => exact absurd (List.cons.inj (List.cons.inj hf).2).1 (by decide)

/-- The first two lines of every message: the header and the operation. -/
lemma fields_head (m : Mutation) : ∃ op rest, m.fields = "DN42-AUTOPEER-V3" :: op :: rest ∧ OneLine op ∧
    (op = "operation:create" → rest.length = 6) ∧ (op = "operation:update" → rest.length = 6) ∧
    (op = "operation:delete" → rest.length = 2) ∧
    (op = "operation:create" ∨ op = "operation:update" ∨ op = "operation:delete") := by
  cases m with
  | create _ _ _ _ _ _ =>
    exact ⟨_, _, rfl, by decide, fun _ => rfl, fun _ => rfl, fun h => absurd h (by decide), .inl rfl⟩
  | update _ _ _ _ _ _ =>
    exact ⟨_, _, rfl, by decide, fun _ => rfl, fun _ => rfl, fun h => absurd h (by decide),
      .inr (.inl rfl)⟩
  | delete _ _ =>
    exact ⟨_, _, rfl, by decide, fun h => absurd h (by decide), fun h => absurd h (by decide),
      fun _ => rfl, .inr (.inr rfl)⟩

/-- Equal messages have equally many fields, for the second line names the operation. -/
lemma fields_length {m m' : Mutation} {n n' e e' : String}
    (h : lines (m.fields ++ [n, e]) = lines (m'.fields ++ [n', e'])) :
    m.fields.length = m'.fields.length := by
  obtain ⟨op, rest, hf, hop, hc, hu, hd, hcases⟩ := fields_head m
  obtain ⟨op', rest', hf', hop', hc', hu', hd', -⟩ := fields_head m'
  rw [hf, hf'] at h ⊢
  have tail : ∀ (ks : List String) (a b : String), ∃ k ls, ks ++ [a, b] = k :: ls := by
    rintro (_ | ⟨k, ks⟩) a b <;> exact ⟨_, _, rfl⟩
  obtain ⟨k, ks, hk⟩ := tail rest n e
  obtain ⟨l, ls, hl⟩ := tail rest' n' e'
  obtain ⟨-, h⟩ := first_line_inj (by decide) (by decide) h
  rw [List.append_eq, List.append_eq, hk, hl] at h
  obtain ⟨rfl, -⟩ := first_line_inj hop hop' h
  rcases hcases with ho | ho | ho
  · simp [hc ho, hc' ho]
  · simp [hu ho, hu' ho]
  · simp [hd ho, hd' ho]

/-- Equal messages: the same operation with the same fields, nonce and expiry. -/
theorem message_binds (keys : OneLineKeys decode) (hosts : OneLineHosts parseUrl) {m m' : Mutation}
    (hm : m.Parsed decode parseUrl parseIpv6) (hm' : m'.Parsed decode parseUrl parseIpv6)
    {nonce nonce' : String} {expiresAt expiresAt' : Int64}
    (h : m.message nonce expiresAt = m'.message nonce' expiresAt') :
    m.SameRequest m' ∧ nonce = nonce' ∧ expiresAt = expiresAt' := by
  rw [message_eq, message_eq] at h
  have expires : ∀ e : Int64, OneLine ("expires_at:" ++ toString e.toInt) := fun e =>
    oneLine_append.mpr ⟨by decide, oneLine_intRepr _⟩
  obtain ⟨hf, hn, he⟩ := lines_inj (fields_length h) (oneLine_fields keys hosts hm)
    (oneLine_fields keys hosts hm') (expires _) (expires _) h
  exact ⟨sameRequest_of_fields hosts hm hm' hf, (String.append_right_inj _).mp hn,
    toString_expires_inj ((String.append_right_inj _).mp he)⟩

end Binding

section Sample

def sampleDecode (text : String) : Except String (List UInt8) :=
  if text.toList.all fun c => c.isAlphanum || c = '+' || c = '/' || c = '=' then .ok []
  else .error "Invalid symbol"

def sampleUrl (text : String) : Option Url :=
  if text = "udp://Example.com:51820" then
    some ⟨"", none, "", none, none, some 51820, some (.domain "Example.com")⟩
  else none

def sampleUpdate : Mutation :=
  .update 4242421111 "r1" ⟨"AAAAAAAAAAAAAAAAAAAAAAAAAAAAAAAAAAAAAAAAAAA="⟩
    (some (some "example.com:51820")) none (some none)

theorem message_binds_sample :
    sampleUpdate.SameRequest sampleUpdate ∧ "n\nexpires_at:1" = "n\nexpires_at:1" ∧ (7 : Int64) = 7 := by
  have keys : OneLineKeys sampleDecode := by
    intro text bytes h
    unfold sampleDecode at h
    split at h
    · rename_i hall
      intro hm
      exact absurd (List.all_eq_true.mp hall _ hm) (by decide)
    · cases h
  have hosts : OneLineHosts sampleUrl := by
    intro text url host h hh
    unfold sampleUrl at h
    split at h
    · cases h
      cases hh
      decide
    · cases h
  have parsed : sampleUpdate.Parsed sampleDecode sampleUrl fun _ => none :=
    ⟨⟨"r1", by decide⟩, ⟨"AAAAAAAAAAAAAAAAAAAAAAAAAAAAAAAAAAAAAAAAAAA=", by decide⟩,
      ⟨some (some " Example.com:51820"), by decide⟩, false, none, none, rfl⟩
  have sent : sampleUpdate.message "n\nexpires_at:1" 7 = sampleUpdate.message "n\nexpires_at:1" 7 := rfl
  exact message_binds keys hosts parsed parsed sent

end Sample

end Autopeer.SignedMessage
