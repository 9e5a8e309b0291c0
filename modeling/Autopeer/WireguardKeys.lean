import Autopeer.Base64
import Autopeer.PeerData

/-! The two checks of a WireGuard public key: the one that a request passes, and the one that
`configure_peer` makes when it hands the key to the kernel. -/
namespace Autopeer.WireguardKeys
open PeerData

section Configure

structure PeerConfig (Key : Type) where
  publicKey : Key
  endpoint : Option String
  allowedIps : List (String × ℕ)

structure DeviceUpdate (Key : Type) where
  privateKey : Key
  listenPort : UInt16
  replacePeers : Bool
  peers : List (PeerConfig Key)

/-- The parts of the kernel interface that lie outside the program. -/
structure Kernel (Key InterfaceName : Type) where
  fromBase64 : String → Option Key
  fromStr : String → Option InterfaceName
  apply : DeviceUpdate Key → InterfaceName → Except String Unit

variable {Key InterfaceName : Type} (k : Kernel Key InterfaceName)

def parseInterfaceName (ifaceName : String) : Except PeerError InterfaceName :=
  match k.fromStr ifaceName with
  | none => .error (.validation "The interface name is invalid")
  | some name => .ok name

def configurePeer (ifaceName privateKey : String) (listenPort : UInt16) (peerPubkey : WgPubKey)
    (endpoint : Option String) : Except PeerError Unit :=
  match k.fromBase64 privateKey with
  | none => .error (.validation "The local WireGuard private key is invalid")
  | some privKey =>
    match k.fromBase64 peerPubkey.text with
    | none => .error (.validation "The peer WireGuard public key is invalid")
    | some peerKey =>
      let peerConfig : PeerConfig Key :=
        ⟨peerKey, endpoint, [("fe80::", 64), ("::", 0), ("0.0.0.0", 0)]⟩
      match parseInterfaceName k ifaceName with
      | .error e => .error e
      | .ok interfaceName =>
        match k.apply ⟨privKey, listenPort, true, [peerConfig]⟩ interfaceName with
        | .error source => .error (.netlink source ifaceName)
        | .ok () => .ok ()

/-- `configure_peer` does not stop at the public key, whatever its other arguments are. -/
def Usable (key : WgPubKey) : Prop :=
  ∀ ifaceName privateKey listenPort endpoint,
    configurePeer k ifaceName privateKey listenPort key endpoint ≠
      .error (.validation "The peer WireGuard public key is invalid")

variable {k}

theorem usable_of_fromBase64 {key : WgPubKey} {peerKey : Key}
    (h : k.fromBase64 key.text = some peerKey) : Usable k key := by
  intro ifaceName privateKey listenPort endpoint he
  unfold configurePeer at he
  cases hp : k.fromBase64 privateKey with
  | none =>
    simp only [hp, Except.error.injEq, PeerError.validation.injEq] at he
    exact absurd he (by decide)
  | some privKey =>
    simp only [hp, h] at he
    unfold parseInterfaceName at he
    cases hn : k.fromStr ifaceName with
    | none =>
      simp only [hn, Except.error.injEq, PeerError.validation.injEq] at he
      exact absurd he (by decide)
    | some name =>
      simp only [hn] at he
      split at he <;> cases he

end Configure

section Checks

variable {Key InterfaceName : Type} (decode : String → Except String (List UInt8))
  (k : Kernel Key InterfaceName)

/-- The padded base64 text of a public key. -/
def KeyText (s : String) : Prop := ∃ bytes : List UInt8, bytes.length = 32 ∧ Base64.encode bytes = s

/-- What is expected of the check of one string: it takes the text of 32 bytes and nothing else,
and a key that it takes is one that `configure_peer` can use. -/
def ChecksKey (s : String) : Prop :=
  ((∃ key, WgPubKey.tryFrom decode s = .ok key) ↔ KeyText s) ∧
    ∀ key, WgPubKey.tryFrom decode s = .ok key →
      (∃ peerKey, k.fromBase64 key.text = some peerKey) ∧ Usable k key

/-- The texts of 44 bytes that are not the text of a key: one byte too few or one too many. -/
def Mistaken (s : String) : Prop :=
  ∃ bytes : List UInt8, (bytes.length = 31 ∨ bytes.length = 33) ∧ Base64.encode bytes = s

variable {decode} {k}

lemma tryFrom_isOk {s : String} : (∃ key, WgPubKey.tryFrom decode s = .ok key) ↔
    s.utf8ByteSize = 44 ∧ ∃ bytes, decode s = .ok bytes := by
  unfold WgPubKey.tryFrom
  constructor
  · rintro ⟨key, h⟩
    split at h
    · cases h
    · rename_i hlen
      refine ⟨not_not.mp hlen, ?_⟩
      cases hd : decode s with
      | error source =>
        rw [hd] at h
        cases h
      | ok bytes => exact ⟨bytes, rfl⟩
  · rintro ⟨hlen, bytes, hd⟩
    exact ⟨⟨s⟩, by rw [if_neg (not_not.mpr hlen), hd]⟩

/-- Eleven groups hold 31, 32 or 33 bytes, by the padding of the last. -/
lemma length_of_encode {s : String} {bytes : List UInt8} (hlen : s.utf8ByteSize = 44)
    (h : Base64.encode bytes = s) : bytes.length = 31 ∨ bytes.length = 32 ∨ bytes.length = 33 := by
  have hsize := Base64.utf8ByteSize_encode bytes
  rw [h, hlen] at hsize
  omega

lemma size_of_encode {s : String} {bytes : List UInt8} (h : Base64.encode bytes = s)
    (hb : bytes.length = 31 ∨ bytes.length = 32 ∨ bytes.length = 33) : s.utf8ByteSize = 44 := by
  have hsize := Base64.utf8ByteSize_encode bytes
  rw [h] at hsize
  omega

variable (hdecode : ∀ text bytes, decode text = .ok bytes ↔ Base64.encode bytes = text)
include hdecode

lemma accepted_iff {s : String} : (∃ key, WgPubKey.tryFrom decode s = .ok key) ↔
    KeyText s ∨ Mistaken s := by
  rw [tryFrom_isOk]
  constructor
  · rintro ⟨hlen, bytes, hd⟩
    have henc := (hdecode s bytes).mp hd
    obtain h | h | h := length_of_encode hlen henc
    · exact .inr ⟨bytes, .inl h, henc⟩
    · exact .inl ⟨bytes, h, henc⟩
    · exact .inr ⟨bytes, .inr h, henc⟩
  · rintro (⟨bytes, h, henc⟩ | ⟨bytes, h, henc⟩)
    · exact ⟨size_of_encode henc (by omega), bytes, (hdecode s bytes).mpr henc⟩
    · exact ⟨size_of_encode henc (by omega), bytes, (hdecode s bytes).mpr henc⟩

omit hdecode in
lemma not_keyText_of_mistaken {s : String} (h : Mistaken s) : ¬KeyText s := by
  rintro ⟨bytes, hlen, henc⟩
  obtain ⟨other, hother, hs⟩ := h
  have : bytes = other := Base64.encode_injective (henc.trans hs.symm)
  subst this
  omega

/-- The two checks agree on a string exactly when it is no text of 31 or of 33 bytes. -/
theorem checks_agree
    (hkey : ∀ text, (∃ key, k.fromBase64 text = some key) ↔ KeyText text) (s : String) :
    ChecksKey decode k s ↔ ¬Mistaken s := by
  have haccepted := accepted_iff (s := s) hdecode
  constructor
  · intro h hm
    exact not_keyText_of_mistaken hm (h.1.mp (haccepted.mpr (.inr hm)))
  · intro hm
    have hok : (∃ key, WgPubKey.tryFrom decode s = .ok key) ↔ KeyText s := by
      rw [haccepted]
      exact or_iff_left hm
    refine ⟨hok, fun key h => ?_⟩
    have htext : KeyText key.text := by
      rw [(tryFrom_ok h).1]
      exact hok.mp ⟨key, h⟩
    obtain ⟨peerKey, hpeer⟩ := (hkey key.text).mpr htext
    exact ⟨⟨peerKey, hpeer⟩, usable_of_fromBase64 hpeer⟩

end Checks

section Standard

/-- The decoder of a request, by the canonical form. -/
def standardDecode (text : String) : Except String (List UInt8) :=
  match Base64.decode text with
  | none => .error "Invalid input"
  | some bytes => .ok bytes

/-- A kernel whose keys are 32 bytes, and which takes every update. -/
def standardKernel : Kernel {bytes : List UInt8 // bytes.length = 32} String where
  fromBase64 text :=
    match Base64.decode text with
    | none => none
    | some bytes => if h : bytes.length = 32 then some ⟨bytes, h⟩ else none
  fromStr name := if name.utf8ByteSize < 16 then some name else none
  apply _ _ := .ok ()

lemma standardDecode_ok (text : String) (bytes : List UInt8) :
    standardDecode text = .ok bytes ↔ Base64.encode bytes = text := by
  rw [← Base64.decode_eq_some, standardDecode]
  cases Base64.decode text <;> simp

lemma standardKernel_key (text : String) :
    (∃ key, standardKernel.fromBase64 text = some key) ↔ KeyText text := by
  simp only [standardKernel, KeyText, ← Base64.decode_eq_some]
  cases hd : Base64.decode text with
  | none => simp
  | some bytes =>
    by_cases h : bytes.length = 32
    · simp [h]
    · simp [h]

lemma mistaken_zeros : Mistaken (Base64.encode (List.replicate 33 0)) :=
  ⟨List.replicate 33 0, by simp, rfl⟩

theorem checks_agree_zeros :
    ChecksKey standardDecode standardKernel (Base64.encode (List.replicate 32 0)) := by
  refine (checks_agree standardDecode_ok standardKernel_key _).mpr fun h => ?_
  exact not_keyText_of_mistaken h ⟨List.replicate 32 0, by simp, rfl⟩

/-- Forty-four times `A` is the text of 33 zero bytes: a request may carry it as its key, and
`configure_peer` then refuses it. -/
theorem zeros_accepted_unusable :
    "AAAAAAAAAAAAAAAAAAAAAAAAAAAAAAAAAAAAAAAAAAAA" = Base64.encode (List.replicate 33 0) ∧
      ¬ChecksKey standardDecode standardKernel "AAAAAAAAAAAAAAAAAAAAAAAAAAAAAAAAAAAAAAAAAAAA" := by
  have htext : "AAAAAAAAAAAAAAAAAAAAAAAAAAAAAAAAAAAAAAAAAAAA" =
      Base64.encode (List.replicate 33 0) := by decide +kernel
  refine ⟨htext, fun h => ?_⟩
  rw [htext] at h
  have haccepted := (accepted_iff standardDecode_ok).mpr (.inr mistaken_zeros)
  exact not_keyText_of_mistaken mistaken_zeros (h.1.mp haccepted)

end Standard

end Autopeer.WireguardKeys
