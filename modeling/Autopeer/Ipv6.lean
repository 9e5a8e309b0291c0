import Mathlib.Tactic

/-! IPv6 addresses as eight 16-bit groups, their text, and the link-local range. -/
namespace Autopeer.Ipv6

structure Ipv6Addr where
  s0 : UInt16
  s1 : UInt16
  s2 : UInt16
  s3 : UInt16
  s4 : UInt16
  s5 : UInt16
  s6 : UInt16
  s7 : UInt16
  deriving DecidableEq, Repr

def Ipv6Addr.segments (a : Ipv6Addr) : List UInt16 :=
  [a.s0, a.s1, a.s2, a.s3, a.s4, a.s5, a.s6, a.s7]

/-- The range fe80::/10. -/
def Ipv6Addr.isUnicastLinkLocal (a : Ipv6Addr) : Bool := a.s0 &&& 0xffc0 == 0xfe80

def Ipv6Addr.toIpv4Mapped (a : Ipv6Addr) : Option (UInt16 × UInt16 × UInt16 × UInt16) :=
  if a.s0 = 0 ∧ a.s1 = 0 ∧ a.s2 = 0 ∧ a.s3 = 0 ∧ a.s4 = 0 ∧ a.s5 = 0xffff then
    some (a.s6 >>> 8, a.s6 &&& 0xff, a.s7 >>> 8, a.s7 &&& 0xff)
  else none

def hex (s : UInt16) : String := String.ofList (Nat.toDigits 16 s.toNat)

structure Span where
  start : ℕ
  len : ℕ
  deriving DecidableEq, Repr

/-- One step of the search for the longest run of zero groups; the first such run wins. -/
def spanStep (state : Span × Span) (item : UInt16 × ℕ) : Span × Span :=
  let longest := state.1
  if item.1 = 0 then
    let current : Span :=
      ⟨if state.2.len = 0 then item.2 else state.2.start, state.2.len + 1⟩
    (if current.len > longest.len then current else longest, current)
  else (longest, ⟨0, 0⟩)

def zeroes (segments : List UInt16) : Span :=
  (segments.zipIdx.foldl spanStep (⟨0, 0⟩, ⟨0, 0⟩)).1

def fmtSubslice (chunk : List UInt16) : String := String.intercalate ":" (chunk.map hex)

/-- The compressed text form that the standard library prints. -/
def Ipv6Addr.display (a : Ipv6Addr) : String :=
  match a.toIpv4Mapped with
  | some (b0, b1, b2, b3) =>
    "::ffff:" ++ String.intercalate "." ([b0, b1, b2, b3].map toString)
  | none =>
    let z := zeroes a.segments
    if z.len > 1 then
      fmtSubslice (a.segments.take z.start) ++ "::" ++ fmtSubslice (a.segments.drop (z.start + z.len))
    else fmtSubslice a.segments

example : (Ipv6Addr.mk 0xfe80 0 0 0 0 0 0xfcde 0x3243).display = "fe80::fcde:3243" := by decide

def asnLinkLocal (asn : UInt32) : Ipv6Addr :=
  ⟨0xfe80, 0, 0, 0, 0, 0, (asn >>> 16).toUInt16, (asn &&& 0xffff).toUInt16⟩

lemma asnLinkLocal_unicast (asn : UInt32) : (asnLinkLocal asn).isUnicastLinkLocal = true := by
  change ((0xfe80 : UInt16) &&& 0xffc0 == 0xfe80) = true
  decide

/-- The automatic address determines the AS number. -/
theorem asnLinkLocal_injective : Function.Injective asnLinkLocal := by
  intro a b h
  have high : (a >>> 16).toUInt16 = (b >>> 16).toUInt16 := congrArg Ipv6Addr.s6 h
  have low : (a &&& 0xffff).toUInt16 = (b &&& 0xffff).toUInt16 := congrArg Ipv6Addr.s7 h
  have high' := congrArg UInt16.toNat high
  have low' := congrArg UInt16.toNat low
  have ha := a.toNat_lt
  have hb := b.toNat_lt
  simp only [UInt32.toNat_toUInt16, UInt32.toNat_shiftRight, UInt32.toNat_and,
    UInt32.reduceToNat, Nat.shiftRight_eq_div_pow] at high' low'
  rw [show (65535 : ℕ) = 2 ^ 16 - 1 from rfl, Nat.and_two_pow_sub_one_eq_mod,
    Nat.and_two_pow_sub_one_eq_mod] at low'
  apply UInt32.toNat_inj.mp
  norm_num at high' low'
  omega

end Autopeer.Ipv6
