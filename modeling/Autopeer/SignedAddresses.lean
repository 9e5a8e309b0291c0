import Autopeer.Ipv6Text
import Autopeer.SignedMessage

/-! What the signed link-local field says of two addresses. The colon between them also stands inside
them, so groups can pass from the one to the other without a change of the text. -/
namespace Autopeer.SignedAddresses
open Ipv6 Ipv6Text LineText RequestParsing SignedMessage

variable {l r l' r' : Ipv6Addr}

/-- What `parse_link_local` can return: no addresses, or two distinct link-local ones. -/
def Returnable : Option (Ipv6Addr × Ipv6Addr) → Prop
  | none => True
  | some (l, r) => l.isUnicastLinkLocal = true ∧ r.isUnicastLinkLocal = true ∧ l ≠ r

lemma parseLinkLocal_returnable {parseIpv6 : String → Option Ipv6Addr} {manualLla : Bool}
    {localLlIp remoteLlIp : Option String} {v : Option (Ipv6Addr × Ipv6Addr)}
    (h : parseLinkLocal parseIpv6 manualLla localLlIp remoteLlIp = .ok v) : Returnable v := by
  match v with
  | none => trivial
  | some (l, r) => exact parseLinkLocal_ok h

/-- The groups `X` at the front of the remote address of `v` stand at the end of the local address
of `v'`, where the "::" is shorter by as many groups, and the "::" of the remote address longer. -/
def Moved (v v' : Ipv6Addr × Ipv6Addr) : Prop :=
  ∃ P S X Q U m n, X ≠ [] ∧ S ≠ [] ∧
    Compressed v.1 P (n + X.length) S ∧ Compressed v.2 (X ++ Q) m U ∧
    Compressed v'.1 P n (S ++ X) ∧ Compressed v'.2 Q (m + X.length) U

/-- One of the values arises from the other by moving groups. -/
def Ambiguous : Option (Ipv6Addr × Ipv6Addr) → Option (Ipv6Addr × Ipv6Addr) → Prop
  | some v, some v' => Moved v v' ∨ Moved v' v
  | _, _ => False

section Text

lemma linkLocalMessage_tokens (hl : l.isUnicastLinkLocal = true) (hr : r.isUnicastLinkLocal = true) :
    linkLocalMessage (some (l, r)) =
      "manual:" ++ String.intercalate ":" ((tokens l ++ tokens r).map token) := by
  rw [linkLocalMessage, display_tokens hl, display_tokens hr, List.map_append,
    String.intercalate_append_of_ne_nil (by simpa using tokens_ne_nil l)
      (by simpa using tokens_ne_nil r)]
  simp only [String.append_assoc]

/-- The text is the tokens of both addresses in one row. -/
theorem linkLocalMessage_eq_iff (hl : l.isUnicastLinkLocal = true)
    (hr : r.isUnicastLinkLocal = true) (hl' : l'.isUnicastLinkLocal = true)
    (hr' : r'.isUnicastLinkLocal = true) :
    linkLocalMessage (some (l, r)) = linkLocalMessage (some (l', r')) ↔
      tokens l ++ tokens r = tokens l' ++ tokens r' := by
  rw [linkLocalMessage_tokens hl hr, linkLocalMessage_tokens hl' hr']
  constructor
  · intro h
    have colon : ":" = String.singleton ':' := by decide
    have row : String.intercalate ":" ((tokens l ++ tokens r).map token) =
        String.intercalate ":" ((tokens l' ++ tokens r').map token) := by
      have chars := congrArg String.toList h
      rw [String.toList_append, String.toList_append] at chars
      exact String.toList_inj.mp (List.append_cancel_left chars)
    rw [colon] at row
    refine List.map_injective_iff.mpr token_injective (intercalate_inj ?_ ?_ ?_ ?_ row)
    · intro f hf
      obtain ⟨t, -, rfl⟩ := List.mem_map.mp hf
      exact colon_notMem_token t
    · intro f hf
      obtain ⟨t, -, rfl⟩ := List.mem_map.mp hf
      exact colon_notMem_token t
    · simp [tokens_ne_nil]
    · simp [tokens_ne_nil]
  · intro h
    rw [h]

end Text

section Rows

/-- More tokens on the left: the groups between the two boundaries were moved. -/
theorem moved_of_tokens {X : List (Option UInt16)} (hX : X ≠ [])
    (hl : tokens l' = tokens l ++ X) (hr : tokens r = X ++ tokens r') : Moved (l, r) (l', r') := by
  have pos : 0 < X.length := List.length_pos_iff.mpr hX
  have lenl := congrArg List.length hl
  have lenr := congrArg List.length hr
  rw [List.length_append] at lenl lenr
  have boundl := tokens_length l'
  have boundr := tokens_length r
  -- Eight groups leave no room for more, so the shorter rows have a gap.
  obtain ⟨P, n, S, cl, tl⟩ : ∃ P n S, Compressed l P n S ∧ tokens l = gapped P S := by
    rcases tokens_cases l with h | h
    · exact h
    · rw [h, List.length_map, segments_length] at lenl
      omega
  obtain ⟨Q, m', U, cr', tr'⟩ : ∃ P n S, Compressed r' P n S ∧ tokens r' = gapped P S := by
    rcases tokens_cases r' with h | h
    · exact h
    · rw [h, List.length_map, segments_length] at lenr
      omega
  obtain ⟨P', n', S', cl', tl'⟩ : ∃ P n S, Compressed l' P n S ∧ tokens l' = gapped P S := by
    rcases tokens_cases l' with h | h
    · exact h
    · have : none ∈ l'.segments.map some := by
        rw [← h, hl, tl]
        simp [gapped]
      exact absurd this (none_notMem_map _)
  obtain ⟨Q', m, U', cr, tr⟩ : ∃ P n S, Compressed r P n S ∧ tokens r = gapped P S := by
    rcases tokens_cases r with h | h
    · exact h
    · have : none ∈ r.segments.map some := by
        rw [← h, hr, tr']
        simp [gapped]
      exact absurd this (none_notMem_map _)
  -- The gaps of the local addresses are at one place, and what follows the later one is longer.
  rw [tl', tl] at hl
  rw [gapped, gapped, List.append_assoc, List.cons_append] at hl
  obtain ⟨hP, hS⟩ := split_first (none_notMem_map P') (none_notMem_map P) hl
  obtain rfl : P' = P := List.map_injective_iff.mpr (Option.some_injective _) hP
  have hS' : S' ≠ [] := by
    rintro rfl
    have := congrArg List.length hS
    rw [if_pos rfl, List.length_append, List.length_singleton] at this
    by_cases h : S = []
    · rw [if_pos h, List.length_singleton] at this
      omega
    · rw [if_neg h, List.length_map] at this
      have := List.length_pos_iff.mpr h
      omega
  have hS₀ : S ≠ [] := by
    rintro rfl
    rw [if_neg hS', if_pos rfl] at hS
    have : none ∈ S'.map some := by
      rw [hS]
      simp
    exact absurd this (none_notMem_map _)
  rw [if_neg hS', if_neg hS₀] at hS
  obtain ⟨S₁, X', rfl, hS₁, rfl⟩ := List.map_eq_append_iff.mp hS
  obtain rfl : S₁ = S := List.map_injective_iff.mpr (Option.some_injective _) hS₁
  -- The gaps of the remote addresses are followed by the same groups.
  rw [tr, tr', gapped, gapped, ← List.append_assoc, ← List.map_append] at hr
  obtain ⟨hQ, hU⟩ := split_first (none_notMem_map _) (none_notMem_map _) hr
  obtain rfl : Q' = X' ++ Q := List.map_injective_iff.mpr (Option.some_injective _) hQ
  have rest : gapped Q U' = gapped Q U := by rw [gapped, gapped, hU]
  obtain rfl : U' = U := (gapped_inj rest).2
  have here := cl.length
  have here' := cl'.length
  have there := cr.length
  have there' := cr'.length
  rw [List.length_append] at here' there
  obtain rfl : n = n' + X'.length := by omega
  obtain rfl : m' = m + X'.length := by omega
  exact ⟨_, _, X', Q, _, m, n', by simpa using hX, hS₀, cl, cr, cl', cr'⟩

/-- Moved groups leave the row of tokens alone. -/
theorem Moved.tokens (h : Moved (l, r) (l', r')) :
    tokens l ++ tokens r = Ipv6Text.tokens l' ++ Ipv6Text.tokens r' ∧ l ≠ l' := by
  obtain ⟨P, S, X, Q, U, m, n, hX, hS, cl, cr, cl', cr'⟩ := h
  have hSX : S ++ X ≠ [] := by simp [hS]
  constructor
  · rw [cl.tokens, cr.tokens, cl'.tokens, cr'.tokens, gapped, gapped, gapped, gapped, if_neg hS,
      if_neg hSX, List.map_append, List.map_append]
    simp only [List.append_assoc, List.cons_append]
  · rintro rfl
    have pos := List.length_pos_iff.mpr hX
    have := cl.length
    have same := congrArg List.length (gapped_inj (cl.tokens.symm.trans cl'.tokens)).2
    rw [List.length_append] at same
    omega

end Rows

/-- The signed field determines the addresses, unless groups can be moved between them. -/
theorem linkLocalMessage_determines {v v' : Option (Ipv6Addr × Ipv6Addr)} (hv : Returnable v)
    (hv' : Returnable v') :
    (linkLocalMessage v = linkLocalMessage v' → v = v') ↔ ¬Ambiguous v v' := by
  match v, v' with
  | none, none => simp [Ambiguous]
  | none, some _ =>
    refine iff_of_true (fun h => ?_) fun h => h
    exact absurd (linkLocalMessage_mode h) (by simp)
  | some _, none =>
    refine iff_of_true (fun h => ?_) fun h => h
    exact absurd (linkLocalMessage_mode h) (by simp)
  | some (l, r), some (l', r') =>
    rw [linkLocalMessage_eq_iff hv.1 hv.2.1 hv'.1 hv'.2.1]
    constructor
    · rintro h (moved | moved)
      · exact moved.tokens.2 (congrArg Prod.fst (Option.some.inj (h moved.tokens.1)))
      · exact moved.tokens.2 (congrArg Prod.fst (Option.some.inj (h moved.tokens.1.symm))).symm
    · intro h row
      rcases List.append_eq_append_iff.mp row with ⟨X, hl, hr⟩ | ⟨X, hl, hr⟩
      · by_cases hX : X = []
        · rw [hX, List.append_nil] at hl
          rw [hX, List.nil_append] at hr
          rw [tokens_injective hl, tokens_injective hr]
        · exact absurd (.inl (moved_of_tokens hX hl hr)) h
      · by_cases hX : X = []
        · rw [hX, List.append_nil] at hl
          rw [hX, List.nil_append] at hr
          rw [tokens_injective hl, tokens_injective hr]
        · exact absurd (.inr (moved_of_tokens hX hl hr)) h

section Sample

/-- fe80::1 and fe80:fe80::1. -/
def sampleManual : Ipv6Addr × Ipv6Addr :=
  (⟨0xfe80, 0, 0, 0, 0, 0, 0, 1⟩, ⟨0xfe80, 0xfe80, 0, 0, 0, 0, 0, 1⟩)

/-- fe80::1:fe80 and fe80::1. -/
def sampleMoved : Ipv6Addr × Ipv6Addr :=
  (⟨0xfe80, 0, 0, 0, 0, 0, 1, 0xfe80⟩, ⟨0xfe80, 0, 0, 0, 0, 0, 0, 1⟩)

/-- Reads the texts of these addresses. -/
def sampleParse (text : String) : Option Ipv6Addr :=
  [sampleManual.1, sampleManual.2, sampleMoved.1].find? (·.display = text)

theorem linkLocalMessage_ambiguous :
    parseLinkLocal sampleParse true (some "fe80::1") (some "fe80:fe80::1") =
      .ok (some sampleManual) ∧
    parseLinkLocal sampleParse true (some "fe80::1:fe80") (some "fe80::1") =
      .ok (some sampleMoved) ∧
    linkLocalMessage (some sampleManual) = linkLocalMessage (some sampleMoved) ∧
    some sampleManual ≠ some sampleMoved := by decide +kernel

theorem linkLocalMessage_determines_sample :
    (linkLocalMessage (some sampleManual) = linkLocalMessage (some sampleMoved) →
      some sampleManual = some sampleMoved) ↔ ¬Ambiguous (some sampleManual) (some sampleMoved) :=
  linkLocalMessage_determines ⟨by decide, by decide, by decide⟩ ⟨by decide, by decide, by decide⟩

end Sample

end Autopeer.SignedAddresses
