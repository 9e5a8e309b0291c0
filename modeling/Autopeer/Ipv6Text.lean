import Autopeer.Ipv6
import Autopeer.LineText

/-! The text of an address read back. The search for zero groups finds the first of the longest
runs, and between the colons of the text stand the other groups and one gap for the run. -/
namespace Autopeer.Ipv6Text
open Ipv6 LineText

section Runs
variable {xs : List UInt16} {x : UInt16} {s n : ℕ}

/-- The groups from `s` on begin with `n` zeros. -/
def ZeroRun (xs : List UInt16) (s n : ℕ) : Prop := ∀ j < n, xs[s + j]? = some 0

lemma ZeroRun.zero : ZeroRun xs s 0 := fun _ h => absurd h (Nat.not_lt_zero _)

lemma ZeroRun.le (h : ZeroRun xs s n) (hn : 0 < n) : s + n ≤ xs.length := by
  have last := h (n - 1) (by omega)
  have := (List.getElem?_eq_some_iff.mp last).1
  omega

lemma ZeroRun.append (h : ZeroRun xs s n) : ZeroRun (xs ++ [x]) s n := fun j hj => by
  have hlt := (List.getElem?_eq_some_iff.mp (h j hj)).1
  rw [List.getElem?_append_left hlt]
  exact h j hj

lemma ZeroRun.of_append (h : ZeroRun (xs ++ [x]) s n) (hn : s + n ≤ xs.length) : ZeroRun xs s n :=
  fun j hj => by
    rw [← @List.getElem?_append_left _ _ [x] _ (by omega)]
    exact h j hj

/-- A run to the end of the list ends in its last group. -/
lemma ZeroRun.last (h : ZeroRun (xs ++ [x]) s (n + 1)) (hn : s + (n + 1) = xs.length + 1) :
    x = 0 ∧ ZeroRun xs s n := by
  have at_end := h n (Nat.lt_succ_self n)
  rw [show s + n = xs.length by omega, List.getElem?_concat_length] at at_end
  refine ⟨Option.some.inj at_end, fun j hj => ?_⟩
  rw [← @List.getElem?_append_left _ _ [x] _ (by omega)]
  exact h j (by omega)

/-- The state of the search after the groups `xs`: the first longest run, and the run at the end. -/
structure Scanned (xs : List UInt16) (state : Span × Span) : Prop where
  run : ZeroRun xs state.1.start state.1.len
  longest : ∀ s n, ZeroRun xs s n → n ≤ state.1.len
  first : 0 < state.1.len → ∀ s, ZeroRun xs s state.1.len → state.1.start ≤ s
  current : ∃ s, s + state.2.len = xs.length ∧ ZeroRun xs s state.2.len ∧
    (0 < state.2.len → state.2.start = s)
  trailing : ∀ s n, ZeroRun xs s n → s + n = xs.length → n ≤ state.2.len

lemma scanned_nil : Scanned [] (⟨0, 0⟩, ⟨0, 0⟩) where
  run := .zero
  longest := fun s n h => by
    by_contra hn
    have := h.le (by omega)
    simp only [List.length_nil] at this
    omega
  first := fun h => absurd h (Nat.lt_irrefl 0)
  current := ⟨0, rfl, .zero, fun _ => rfl⟩
  trailing := fun s n _ h => by
    simp only [List.length_nil] at h
    omega

lemma scanned_step {state : Span × Span} (h : Scanned xs state) :
    Scanned (xs ++ [x]) (spanStep state (x, xs.length)) := by
  obtain ⟨longest, current⟩ := state
  obtain ⟨run, long, first, ⟨s₀, hs₀, hrun₀, hstart₀⟩, trailing⟩ := h
  dsimp only at run long first hs₀ hrun₀ hstart₀ trailing
  -- A run in the longer list lies in the shorter one, or it is its last run with one more group.
  have split : ∀ s n, ZeroRun (xs ++ [x]) s n → 0 < n → ZeroRun xs s n ∨
      (x = 0 ∧ s + n = xs.length + 1 ∧ n ≤ current.len + 1) := by
    intro s n hr hn
    have hle := hr.le hn
    rw [List.length_append, List.length_singleton] at hle
    rcases Nat.lt_or_ge xs.length (s + n) with hlt | hge
    · obtain ⟨m, rfl⟩ : ∃ m, n = m + 1 := ⟨n - 1, by omega⟩
      obtain ⟨hx, hm⟩ := hr.last (by omega)
      have := trailing s m hm (by omega)
      exact .inr ⟨hx, by omega, by omega⟩
    · exact .inl (hr.of_append hge)
  have len : (xs ++ [x]).length = xs.length + 1 := by simp
  by_cases hx : x = 0
  · have begins : (if current.len = 0 then xs.length else current.start) = s₀ := by
      split <;> omega
    have grown : ZeroRun (xs ++ [x]) s₀ (current.len + 1) := by
      intro j hj
      rcases Nat.lt_or_ge j current.len with hlt | hge
      · exact hrun₀.append j hlt
      · rw [show s₀ + j = xs.length by omega, List.getElem?_concat_length, hx]
    have trailing' : ∀ s n, ZeroRun (xs ++ [x]) s n → s + n = (xs ++ [x]).length →
        n ≤ current.len + 1 := by
      intro s n hr hn
      rcases Nat.eq_zero_or_pos n with rfl | hpos
      · omega
      · rcases split s n hr hpos with hold | ⟨-, -, hle⟩
        · have := hold.le hpos
          omega
        · exact hle
    simp only [spanStep, hx, ↓reduceIte, begins]
    rw [hx] at split grown trailing' len
    by_cases hgt : current.len + 1 > longest.len
    · rw [if_pos hgt]
      refine ⟨grown, fun s n hr => ?_, fun _ s hr => ?_,
        ⟨s₀, by dsimp only; omega, grown, fun _ => rfl⟩, trailing'⟩
      · rcases Nat.eq_zero_or_pos n with rfl | hpos
        · exact Nat.zero_le _
        · rcases split s n hr hpos with hold | ⟨-, -, hle⟩
          · have := long s n hold
            dsimp only
            omega
          · exact hle
      · dsimp only at hr ⊢
        rcases split s _ hr (Nat.succ_pos _) with hold | ⟨-, hend, -⟩
        · have := long s _ hold
          omega
        · omega
    · rw [if_neg hgt]
      refine ⟨run.append, fun s n hr => ?_, fun hpos s hr => ?_,
        ⟨s₀, by dsimp only; omega, grown, fun _ => rfl⟩, trailing'⟩
      · rcases Nat.eq_zero_or_pos n with rfl | hpos
        · exact Nat.zero_le _
        · rcases split s n hr hpos with hold | ⟨-, -, hle⟩
          · exact long s n hold
          · dsimp only
            omega
      · dsimp only at hpos hr ⊢
        have within := run.le hpos
        rcases split s _ hr hpos with hold | ⟨-, hend, -⟩
        · exact first hpos s hold
        · omega
  · have old : ∀ s n, ZeroRun (xs ++ [x]) s n → 0 < n → ZeroRun xs s n := fun s n hr hpos =>
      (split s n hr hpos).resolve_right fun h => hx h.1
    simp only [spanStep, if_neg hx]
    refine ⟨run.append, fun s n hr => ?_, fun hpos s hr => first hpos s (old s _ hr hpos),
      ⟨xs.length + 1, by dsimp only; omega, .zero, fun h => absurd h (Nat.lt_irrefl 0)⟩,
      fun s n hr hn => ?_⟩
    · rcases Nat.eq_zero_or_pos n with rfl | hpos
      · exact Nat.zero_le _
      · exact long s n (old s n hr hpos)
    · dsimp only
      by_contra hpos
      have := (old s n hr (by omega)).le (by omega)
      omega

/-- The search over all groups. -/
theorem scanned_foldl (xs : List UInt16) :
    Scanned xs (xs.zipIdx.foldl spanStep (⟨0, 0⟩, ⟨0, 0⟩)) := by
  induction xs using List.reverseRecOn with
  | nil => exact scanned_nil
  | append_singleton xs x ih =>
    rw [List.zipIdx_append, List.foldl_append]
    have step := scanned_step (x := x) ih
    simpa using step

/-- `zeroes` finds the first of the longest runs of zero groups. -/
theorem zeroes_run (xs : List UInt16) : ZeroRun xs (zeroes xs).start (zeroes xs).len :=
  (scanned_foldl xs).run

theorem zeroes_longest (h : ZeroRun xs s n) : n ≤ (zeroes xs).len := (scanned_foldl xs).longest s n h

theorem zeroes_first (hpos : 0 < (zeroes xs).len) (h : ZeroRun xs s (zeroes xs).len) :
    (zeroes xs).start ≤ s := (scanned_foldl xs).first hpos s h

lemma ZeroRun.split (h : ZeroRun xs s n) :
    xs = xs.take s ++ List.replicate n 0 ++ xs.drop (s + n) := by
  have zeros : (xs.drop s).take n = List.replicate n 0 := by
    apply List.ext_getElem?
    intro j
    rw [List.getElem?_take, List.getElem?_drop, List.getElem?_replicate]
    split
    · rename_i hj
      exact h j hj
    · rfl
  rw [← zeros, List.append_assoc, ← List.drop_drop, List.take_append_drop, List.take_append_drop]

end Runs

section Tokens
variable {a b : Ipv6Addr} {P S : List UInt16} {n : ℕ}

/-- The `n` zero groups between `P` and `S` are those that the text writes as "::": the first of
the longest runs of two or more. -/
structure Compressed (a : Ipv6Addr) (P : List UInt16) (n : ℕ) (S : List UInt16) : Prop where
  segments : a.segments = P ++ List.replicate n 0 ++ S
  two : 2 ≤ n
  longest : ∀ s m, ZeroRun a.segments s m → m ≤ n
  first : ∀ s, ZeroRun a.segments s n → P.length ≤ s

lemma Compressed.run (h : Compressed a P n S) : ZeroRun a.segments P.length n := by
  intro j hj
  rw [h.segments, List.append_assoc, List.getElem?_append_right (by omega), Nat.add_sub_cancel_left,
    List.getElem?_append_left (by simpa using hj), List.getElem?_replicate_of_lt hj]

lemma Compressed.zeroes (h : Compressed a P n S) : zeroes a.segments = ⟨P.length, n⟩ := by
  have len : (Ipv6.zeroes a.segments).len = n :=
    Nat.le_antisymm (h.longest _ _ (zeroes_run _)) (zeroes_longest h.run)
  have start : (Ipv6.zeroes a.segments).start = P.length := by
    apply Nat.le_antisymm
    · exact zeroes_first (by rw [len]; exact h.two.trans' (by omega)) (len ▸ h.run)
    · exact h.first _ (len ▸ zeroes_run _)
  rw [← len, ← start]

lemma compressed_zeroes (h : 1 < (zeroes a.segments).len) :
    Compressed a (a.segments.take (zeroes a.segments).start) (zeroes a.segments).len
      (a.segments.drop ((zeroes a.segments).start + (zeroes a.segments).len)) where
  segments := (zeroes_run _).split
  two := h
  longest := fun _ _ => zeroes_longest
  first := fun s hs => (List.length_take_le _ _).trans (zeroes_first (by omega) hs)

/-- What stands between the colons of the text: the groups, and gaps where "::" is. -/
def gapped (P S : List UInt16) : List (Option UInt16) :=
  P.map some ++ none :: if S = [] then [none] else S.map some

def tokens (a : Ipv6Addr) : List (Option UInt16) :=
  let z := zeroes a.segments
  if z.len > 1 then gapped (a.segments.take z.start) (a.segments.drop (z.start + z.len))
  else a.segments.map some

/-- The text between two colons. -/
def token : Option UInt16 → String
  | none => ""
  | some s => hex s

lemma token_injective : Function.Injective token := by
  have some_ne : ∀ s, hex s ≠ "" := by
    intro s h
    have := congrArg String.toList h
    rw [hex, String.toList_ofList] at this
    exact Nat.toDigits_ne_nil this
  intro t u h
  match t, u with
  | none, none => rfl
  | none, some s => exact absurd h.symm (some_ne s)
  | some s, none => exact absurd h (some_ne s)
  | some s, some s' =>
    have same := toDigits_inj (by decide) (by decide) (String.ofList_injective h)
    rw [UInt16.toNat_inj.mp same]

lemma colon_notMem_token (t : Option UInt16) : ':' ∉ (token t).toList := by
  cases t with
  | none => simp [token]
  | some s =>
    rw [token, hex, String.toList_ofList]
    exact notMem_toDigits (by decide) fun _ => Nat.digitChar_ne _ (by decide)

lemma Compressed.tokens (h : Compressed a P n S) : tokens a = gapped P S := by
  have two := h.two
  have before : a.segments.take P.length = P := by
    rw [h.segments, List.append_assoc, List.take_left]
  have after : a.segments.drop (P.length + n) = S := by
    rw [h.segments, List.drop_left' (by simp)]
  simp only [Ipv6Text.tokens, h.zeroes, gt_iff_lt, before, after]
  rw [if_pos (by omega)]

/-- An address has the one form of text or the other. -/
theorem tokens_cases (a : Ipv6Addr) : (∃ P n S, Compressed a P n S ∧ tokens a = gapped P S) ∨
    tokens a = a.segments.map some := by
  by_cases h : 1 < (zeroes a.segments).len
  · exact .inl ⟨_, _, _, compressed_zeroes h, (compressed_zeroes h).tokens⟩
  · simp only [tokens, gt_iff_lt, if_neg h]
    exact .inr trivial

lemma tokens_ne_nil (a : Ipv6Addr) : tokens a ≠ [] := by
  rcases tokens_cases a with ⟨P, n, S, -, h⟩ | h
  · simp [h, gapped]
  · simp [h, Ipv6Addr.segments]

lemma linkLocal_first (h : a.isUnicastLinkLocal = true) : a.s0 ≠ 0 := by
  intro h0
  simp [Ipv6Addr.isUnicastLinkLocal, h0] at h

lemma Compressed.linkLocal (h : Compressed a P n S) (ha : a.isUnicastLinkLocal = true) : P ≠ [] := by
  rintro rfl
  have first := h.run 0 (by have := h.two; omega)
  simp only [List.length_nil, Ipv6Addr.segments, Nat.add_zero, List.getElem?_cons_zero,
    Option.some.injEq] at first
  exact linkLocal_first ha first

lemma fmtSubslice_eq (chunk : List UInt16) :
    fmtSubslice chunk = String.intercalate ":" ((chunk.map some).map token) := by
  rw [fmtSubslice, List.map_map]
  rfl

lemma fmtSubslice_gapped (hP : P ≠ []) : fmtSubslice P ++ "::" ++ fmtSubslice S =
    String.intercalate ":" ((gapped P S).map token) := by
  have tail : fmtSubslice S =
      String.intercalate ":" ((if S = [] then [none] else S.map some).map token) := by
    by_cases hS : S = []
    · rw [if_pos hS, hS]
      rfl
    · rw [if_neg hS, fmtSubslice_eq]
  have tail_ne : (if S = [] then [none] else S.map some).map token ≠ [] := by
    by_cases hS : S = []
    · simp [hS]
    · simp [hS]
  have colons : "::" = ":" ++ ":" := by decide
  rw [gapped, List.map_append, List.map_cons,
    String.intercalate_append_of_ne_nil (by simpa using hP) (by simp),
    String.intercalate_cons_of_ne_nil tail_ne, ← tail, ← fmtSubslice_eq]
  simp only [token, colons, String.append_assoc, String.empty_append]

/-- The text of a link-local address is its tokens with colons between them. -/
theorem display_tokens (ha : a.isUnicastLinkLocal = true) :
    a.display = String.intercalate ":" ((tokens a).map token) := by
  have unmapped : a.toIpv4Mapped = none := by
    rw [Ipv6Addr.toIpv4Mapped, if_neg]
    exact fun h => linkLocal_first ha h.1
  simp only [Ipv6Addr.display, unmapped, tokens]
  split
  · rename_i hz
    exact fmtSubslice_gapped ((compressed_zeroes hz).linkLocal ha)
  · exact fmtSubslice_eq _

lemma segments_injective : Function.Injective Ipv6Addr.segments := by
  intro a b h
  cases a
  cases b
  simpa [Ipv6Addr.segments] using h

@[simp] lemma segments_length (a : Ipv6Addr) : a.segments.length = 8 := rfl

lemma Compressed.length (h : Compressed a P n S) : P.length + n + S.length = 8 := by
  have := congrArg List.length h.segments
  simp only [segments_length, List.length_append, List.length_replicate] at this
  omega

lemma none_notMem_map (xs : List UInt16) : none ∉ xs.map some := by simp

lemma gapped_inj {P' S' : List UInt16} (h : gapped P S = gapped P' S') : P = P' ∧ S = S' := by
  obtain ⟨hP, hS⟩ := split_first (none_notMem_map P) (none_notMem_map P') h
  refine ⟨List.map_injective_iff.mpr (Option.some_injective _) hP, ?_⟩
  by_cases h₁ : S = [] <;> by_cases h₂ : S' = []
  · rw [h₁, h₂]
  · rw [if_pos h₁, if_neg h₂] at hS
    exact absurd (hS ▸ List.mem_singleton_self none) (none_notMem_map S')
  · rw [if_neg h₁, if_pos h₂] at hS
    exact absurd (hS.symm ▸ List.mem_singleton_self none) (none_notMem_map S)
  · rw [if_neg h₁, if_neg h₂] at hS
    exact List.map_injective_iff.mpr (Option.some_injective _) hS

lemma gapped_length (P S : List UInt16) :
    (gapped P S).length = P.length + 1 + max 1 S.length := by
  cases S <;> simp [gapped] <;> omega

lemma tokens_length (a : Ipv6Addr) : (tokens a).length ≤ 8 := by
  rcases tokens_cases a with ⟨P, n, S, hc, h⟩ | h
  · have := hc.length
    have := hc.two
    rw [h, gapped_length]
    omega
  · simp [h]

/-- The tokens determine the address. -/
theorem tokens_injective : Function.Injective tokens := by
  intro a b h
  rcases tokens_cases a with ⟨P, n, S, hc, ha⟩ | ha <;>
    rcases tokens_cases b with ⟨P', n', S', hc', hb⟩ | hb
  · obtain ⟨rfl, rfl⟩ := gapped_inj ((ha.symm.trans h).trans hb)
    have hn : n = n' := by
      have := hc.length
      have := hc'.length
      omega
    apply segments_injective
    rw [hc.segments, hc'.segments, hn]
  · have : none ∈ b.segments.map some := by
      rw [← hb, ← h, ha]
      simp [gapped]
    exact absurd this (none_notMem_map _)
  · have : none ∈ a.segments.map some := by
      rw [← ha, h, hb]
      simp [gapped]
    exact absurd this (none_notMem_map _)
  · apply segments_injective
    exact List.map_injective_iff.mpr (Option.some_injective _) ((ha.symm.trans h).trans hb)

end Tokens

section Display
variable {a b : Ipv6Addr}

/-- What stands between the colons of any text: where it begins with a gap, the colons of the gap
have nothing before them. -/
def pieces (a : Ipv6Addr) : List (Option UInt16) :=
  if (tokens a).head? = some none then none :: tokens a else tokens a

lemma pieces_ne_nil (a : Ipv6Addr) : pieces a ≠ [] := by
  unfold pieces
  split
  · exact List.cons_ne_nil _ _
  · exact tokens_ne_nil a

lemma pieces_injective : Function.Injective pieces := by
  intro a b h
  apply tokens_injective
  unfold pieces at h
  by_cases ha : (tokens a).head? = some none <;> by_cases hb : (tokens b).head? = some none
  · rw [if_pos ha, if_pos hb] at h
    exact (List.cons.inj h).2
  · rw [if_pos ha, if_neg hb] at h
    exact absurd (by rw [← h]; rfl) hb
  · rw [if_neg ha, if_pos hb] at h
    exact absurd (by rw [h]; rfl) ha
  · rwa [if_neg ha, if_neg hb] at h

/-- The text of an address that is no mapped one is its pieces with colons between them. -/
theorem display_unmapped (h : a.toIpv4Mapped = none) :
    a.display = String.intercalate ":" ((pieces a).map token) := by
  by_cases hz : (zeroes a.segments).len > 1
  · set P := a.segments.take (zeroes a.segments).start with hP
    set S := a.segments.drop ((zeroes a.segments).start + (zeroes a.segments).len) with hS
    have hd : a.display = fmtSubslice P ++ "::" ++ fmtSubslice S := by
      simp only [Ipv6Addr.display, h]
      rw [if_pos hz]
    have ht : tokens a = gapped P S := by
      simp only [tokens]
      rw [if_pos hz]
    rw [hd, pieces, ht]
    by_cases hnil : P = []
    · have hhead : (gapped P S).head? = some none := by simp [gapped, hnil]
      rw [if_pos hhead, hnil]
      by_cases hS : S = []
      · rw [hS]
        decide
      · have hne : (S.map some).map token ≠ [] := by simpa using hS
        rw [gapped, if_neg hS, List.map_nil, List.nil_append, List.map_cons, List.map_cons,
          String.intercalate_cons_of_ne_nil (List.cons_ne_nil _ _),
          String.intercalate_cons_of_ne_nil hne, ← fmtSubslice_eq]
        have colons : "::" = ":" ++ ":" := by decide
        simp only [fmtSubslice, List.map_nil, String.intercalate_nil, token, colons,
          String.empty_append, String.append_assoc]
    · obtain ⟨s, P', hP'⟩ := List.exists_cons_of_ne_nil hnil
      have hhead : (gapped P S).head? ≠ some none := by simp [gapped, hP']
      rw [if_neg hhead, fmtSubslice_gapped hnil]
  · have ht : tokens a = a.segments.map some := by
      simp only [tokens]
      rw [if_neg hz]
    have hhead : (a.segments.map some).head? ≠ some none := by simp [Ipv6Addr.segments]
    simp only [Ipv6Addr.display, h]
    rw [if_neg hz, pieces, ht, if_neg hhead, fmtSubslice_eq]

lemma dot_notMem_token (t : Option UInt16) : '.' ∉ (token t).toList := by
  cases t with
  | none => simp [token]
  | some s =>
    rw [token, hex, String.toList_ofList]
    exact notMem_toDigits (by decide) fun _ => Nat.digitChar_ne _ (by decide)

lemma notMem_hex {c : Char} (hc : ∀ d, Nat.digitChar d ≠ c) (s : UInt16) : c ∉ (hex s).toList := by
  rw [hex, String.toList_ofList]
  exact notMem_toDigits (by decide) hc

lemma notMem_fmtSubslice {c : Char} (hc : ∀ d, Nat.digitChar d ≠ c) (hcolon : c ≠ ':')
    (chunk : List UInt16) : c ∉ (fmtSubslice chunk).toList := by
  refine notMem_intercalate (by simpa using hcolon) fun f hf => ?_
  obtain ⟨s, -, rfl⟩ := List.mem_map.mp hf
  exact notMem_hex hc s

/-- The text of an address consists of digits, colons and dots. -/
theorem notMem_display {c : Char} (hc : ∀ d, Nat.digitChar d ≠ c) (hcolon : c ≠ ':') (hdot : c ≠ '.')
    (a : Ipv6Addr) : c ∉ a.display.toList := by
  have hf : c ≠ 'f' := Ne.symm (hc 15)
  have hmapped : c ∉ "::ffff:".toList := by simp [hcolon, hf]
  have hgap : c ∉ "::".toList := by simpa using hcolon
  unfold Ipv6Addr.display
  split
  · rw [String.toList_append, List.mem_append, not_or]
    refine ⟨hmapped, notMem_intercalate (by simpa using hdot) fun f hf => ?_⟩
    obtain ⟨s, -, rfl⟩ := List.mem_map.mp hf
    have hrepr : toString s = Nat.repr s.toNat := rfl
    rw [hrepr, Nat.toList_repr]
    exact notMem_toDigits (by decide) hc
  · dsimp only
    split
    · rw [String.toList_append, String.toList_append, List.mem_append, List.mem_append, not_or, not_or]
      exact ⟨⟨notMem_fmtSubslice hc hcolon _, hgap⟩, notMem_fmtSubslice hc hcolon _⟩
    · exact notMem_fmtSubslice hc hcolon _

/-- Only the text of a mapped address has a dot. -/
lemma dot_notMem_display (h : a.toIpv4Mapped = none) : '.' ∉ a.display.toList := by
  rw [display_unmapped h]
  refine notMem_intercalate (by decide) fun f hf => ?_
  obtain ⟨t, -, rfl⟩ := List.mem_map.mp hf
  exact dot_notMem_token t

lemma display_inj_unmapped (ha : a.toIpv4Mapped = none) (hb : b.toIpv4Mapped = none)
    (h : a.display = b.display) : a = b := by
  have colon_free : ∀ c : Ipv6Addr, ∀ f ∈ (pieces c).map token, ':' ∉ f.toList := by
    intro c f hf
    obtain ⟨t, -, rfl⟩ := List.mem_map.mp hf
    exact colon_notMem_token t
  rw [display_unmapped ha, display_unmapped hb] at h
  have hpieces := @intercalate_inj _ _ ':' (colon_free a) (colon_free b)
    (by simpa using pieces_ne_nil a) (by simpa using pieces_ne_nil b) h
  exact pieces_injective (List.map_injective_iff.mpr token_injective hpieces)

/-- The two bytes of a group determine it. -/
lemma bytes_inj {s t : UInt16} (high : s >>> 8 = t >>> 8) (low : s &&& 0xff = t &&& 0xff) : s = t := by
  have high' := congrArg UInt16.toNat high
  have low' := congrArg UInt16.toNat low
  simp only [UInt16.toNat_shiftRight, UInt16.toNat_and, UInt16.reduceToNat,
    Nat.shiftRight_eq_div_pow] at high' low'
  rw [show (255 : ℕ) = 2 ^ 8 - 1 from rfl, Nat.and_two_pow_sub_one_eq_mod,
    Nat.and_two_pow_sub_one_eq_mod] at low'
  apply UInt16.toNat_inj.mp
  norm_num at high' low'
  omega

lemma toIpv4Mapped_inj {x : UInt16 × UInt16 × UInt16 × UInt16} (ha : a.toIpv4Mapped = some x)
    (hb : b.toIpv4Mapped = some x) : a = b := by
  unfold Ipv6Addr.toIpv4Mapped at ha hb
  split at ha
  · rename_i hza
    split at hb
    · rename_i hzb
      simp only [Option.some.injEq, ← ha, Prod.mk.injEq] at hb
      obtain ⟨h6, h6', h7, h7'⟩ := hb
      have hs6 := bytes_inj h6 h6'
      have hs7 := bytes_inj h7 h7'
      cases a
      cases b
      simp_all
    · cases hb
  · cases ha

/-- The text of an address determines it. -/
theorem display_injective : Function.Injective Ipv6Addr.display := by
  intro a b h
  have dotted : ∀ (c : Ipv6Addr) (x), c.toIpv4Mapped = some x → '.' ∈ c.display.toList := by
    rintro c ⟨b0, b1, b2, b3⟩ hc
    simp only [Ipv6Addr.display, hc, List.map_cons, String.intercalate_cons_cons,
      String.toList_append, List.mem_append]
    simp
  cases ha : a.toIpv4Mapped with
  | none =>
    cases hb : b.toIpv4Mapped with
    | none => exact display_inj_unmapped ha hb h
    | some y =>
      have hdot := dotted b y hb
      rw [← h] at hdot
      exact absurd hdot (dot_notMem_display ha)
  | some x =>
    cases hb : b.toIpv4Mapped with
    | none =>
      have hdot := dotted a x ha
      rw [h] at hdot
      exact absurd hdot (dot_notMem_display hb)
    | some y =>
      obtain ⟨a0, a1, a2, a3⟩ := x
      obtain ⟨b0, b1, b2, b3⟩ := y
      simp only [Ipv6Addr.display, ha, hb] at h
      have hl := congrArg String.toList h
      simp only [String.toList_append, List.append_cancel_left_eq] at hl
      have hfields : [a0, a1, a2, a3].map toString = [b0, b1, b2, b3].map toString := by
        refine @intercalate_inj _ _ '.' ?_ ?_ (by simp) (by simp) (String.toList_inj.mp hl)
        · simp only [List.mem_map]
          rintro f ⟨n, -, rfl⟩
          exact notMem_natRepr (by decide)
        · simp only [List.mem_map]
          rintro f ⟨n, -, rfl⟩
          exact notMem_natRepr (by decide)
      have hbytes := List.map_injective_iff.mpr uInt16_toString_injective hfields
      simp only [List.cons.injEq, and_true] at hbytes
      obtain ⟨rfl, rfl, rfl, rfl⟩ := hbytes
      exact toIpv4Mapped_inj ha hb

end Display

end Autopeer.Ipv6Text
