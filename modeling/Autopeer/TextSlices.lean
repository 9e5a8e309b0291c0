import Mathlib

/-! Searching a text and slicing it by byte offsets, as texts in UTF-8 are: a slice that is out of
bounds, or that would cut a character, has no value. -/
namespace Autopeer.TextSlices
open String (utf8Len)

/-- The byte offset of the first place where the pattern stands. -/
def find (pattern : List Char) (text : List Char) : Option ℕ :=
  if pattern.isPrefixOf text then some 0
  else
    match text with
    | [] => none
    | c :: rest => (find pattern rest).map (c.utf8Size + ·)

/-- The text before a byte offset and the text from it on. -/
def cut (offset : ℕ) : List Char → Option (List Char × List Char)
  | [] => if offset = 0 then some ([], []) else none
  | c :: rest =>
    if offset = 0 then some ([], c :: rest)
    else if c.utf8Size ≤ offset then
      (cut (offset - c.utf8Size) rest).map fun x => (c :: x.1, x.2)
    else none

/-- The bytes from `start` to before `stop`. -/
def slice (text : List Char) (start stop : ℕ) : Option (List Char) :=
  (cut stop text).bind fun x => (cut start x.1).map Prod.snd

section Cut
variable {a b : List Char}

@[simp] lemma cut_zero : cut 0 a = some ([], a) := by
  cases a <;> rfl

lemma cut_append : cut (utf8Len a) (a ++ b) = some (a, b) := by
  induction a with
  | nil => simp
  | cons c a ih =>
    have hpos := c.utf8Size_pos
    have hrest : utf8Len a + c.utf8Size - c.utf8Size = utf8Len a := Nat.add_sub_cancel _ _
    rw [List.cons_append, cut, String.utf8Len_cons, if_neg (by omega), if_pos (by omega), hrest, ih]
    rfl

/-- A slice between two places of the text is what stands between them. -/
theorem slice_append {c : List Char} :
    slice (a ++ b ++ c) (utf8Len a) (utf8Len a + utf8Len b) = some b := by
  have hstop : cut (utf8Len a + utf8Len b) (a ++ b ++ c) = some (a ++ b, c) := by
    rw [← String.utf8Len_append]
    exact cut_append
  rw [slice, hstop, Option.bind_some, cut_append]
  rfl

end Cut

section Find
variable {pattern text : List Char}

/-- `before` is the text before the first place where the pattern stands, `after` what follows. -/
structure First (pattern text before after : List Char) : Prop where
  split : text = before ++ pattern ++ after
  first : ∀ before' after', text = before' ++ pattern ++ after' → before.length ≤ before'.length

lemma First.unique {before after before' after' : List Char} (h : First pattern text before after)
    (h' : First pattern text before' after') : before = before' ∧ after = after' := by
  have hlen : before.length = before'.length :=
    Nat.le_antisymm (h.first _ _ h'.split) (h'.first _ _ h.split)
  have heq := h.split.symm.trans h'.split
  rw [List.append_assoc, List.append_assoc] at heq
  obtain ⟨rfl, hrest⟩ := List.append_inj heq hlen
  exact ⟨rfl, List.append_cancel_left hrest⟩

lemma First.cons {before after : List Char} {c : Char} (h : First pattern text before after)
    (hc : pattern.isPrefixOf (c :: text) = false) :
    First pattern (c :: text) (c :: before) after where
  split := by simp [h.split]
  first := fun before' after' heq => by
    cases before' with
    | nil =>
      have hp : pattern.isPrefixOf (c :: text) = true := by
        rw [List.isPrefixOf_iff_prefix, heq]
        exact List.prefix_append _ _
      rw [hp] at hc
      cases hc
    | cons d before' =>
      simp only [List.cons_append, List.cons.injEq] at heq
      have := h.first before' after' (by simpa using heq.2)
      simpa using this

/-- The search finds the first place, and finds one if there is one. -/
theorem find_spec : (∀ offset, find pattern text = some offset →
      ∃ before after, First pattern text before after ∧ offset = utf8Len before) ∧
    (find pattern text = none → ¬pattern <:+: text) := by
  induction text with
  | nil =>
    unfold find
    by_cases hp : pattern.isPrefixOf []
    · rw [if_pos hp]
      have hnil : pattern = [] := by simpa using List.isPrefixOf_iff_prefix.mp hp
      refine ⟨fun offset h => ?_, fun h => by cases h⟩
      obtain rfl := Option.some.inj h
      exact ⟨[], [], ⟨by simp [hnil], fun _ _ _ => Nat.zero_le _⟩, rfl⟩
    · rw [if_neg hp]
      refine ⟨fun offset h => (by cases h), fun _ hin => hp ?_⟩
      have : pattern = [] := List.infix_nil.mp hin
      rw [this]
      rfl
  | cons c rest ih =>
    unfold find
    by_cases hp : pattern.isPrefixOf (c :: rest)
    · rw [if_pos hp]
      obtain ⟨after, hafter⟩ := List.isPrefixOf_iff_prefix.mp hp
      refine ⟨fun offset h => ?_, fun h => by cases h⟩
      obtain rfl := Option.some.inj h
      exact ⟨[], after, ⟨by simpa using hafter.symm, fun _ _ _ => Nat.zero_le _⟩, rfl⟩
    · rw [if_neg hp]
      constructor
      · intro offset h
        obtain ⟨n, hn, rfl⟩ := Option.map_eq_some_iff.mp h
        obtain ⟨before, after, hfirst, rfl⟩ := ih.1 n hn
        refine ⟨c :: before, after, hfirst.cons (Bool.eq_false_iff.mpr hp), ?_⟩
        rw [String.utf8Len_cons, Nat.add_comm]
      · intro h hin
        rcases List.infix_cons_iff.mp hin with hpre | hrest
        · exact hp (List.isPrefixOf_iff_prefix.mpr hpre)
        · exact ih.2 (Option.map_eq_none_iff.mp h) hrest

theorem find_of_first {before after : List Char} (h : First pattern text before after) :
    find pattern text = some (utf8Len before) := by
  cases hf : find pattern text with
  | none => exact absurd ⟨before, after, h.split.symm⟩ (find_spec.2 hf)
  | some offset =>
    obtain ⟨before', after', h', rfl⟩ := find_spec.1 offset hf
    rw [(h.unique h').1]

end Find

end Autopeer.TextSlices
