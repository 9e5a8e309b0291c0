import Mathlib

/-! Texts of several lines. A line that has no line break of its own can be read back from the front
of a text, and so can the last line from its end, whatever stands before it. -/
namespace Autopeer.LineText

section Lists
variable {α : Type} {x : α} {a b c d : List α}

lemma split_first (ha : x ∉ a) (hb : x ∉ b) (h : a ++ x :: c = b ++ x :: d) : a = b ∧ c = d := by
  induction a generalizing b with
  | nil =>
    cases b with
    | nil => simpa using h
    | cons y b => exact absurd (by simp [(List.cons.inj h).1]) hb
  | cons z a ih =>
    cases b with
    | nil => exact absurd (by simp [(List.cons.inj h).1]) ha
    | cons y b =>
      simp only [List.cons_append, List.cons.injEq] at h
      obtain ⟨rfl, hcd⟩ := ih (fun hm => ha (by simp [hm])) (fun hm => hb (by simp [hm])) h.2
      exact ⟨by rw [h.1], hcd⟩

lemma split_last (hc : x ∉ c) (hd : x ∉ d) (h : a ++ x :: c = b ++ x :: d) : a = b ∧ c = d := by
  have hr := congrArg List.reverse h
  simp only [List.reverse_append, List.reverse_cons, List.append_assoc, List.singleton_append] at hr
  obtain ⟨hcd, hab⟩ := split_first (by simpa using hc) (by simpa using hd) hr
  exact ⟨List.reverse_inj.mp hab, List.reverse_inj.mp hcd⟩

end Lists

/-- The text has no line break. -/
def OneLine (s : String) : Prop := '\n' ∉ s.toList

instance (s : String) : Decidable (OneLine s) := inferInstanceAs (Decidable (¬ _))

variable {s t f g : String} {fs gs : List String}

@[simp] lemma oneLine_append : OneLine (s ++ t) ↔ OneLine s ∧ OneLine t := by
  simp [OneLine]

lemma oneLine_ofList {l : List Char} : OneLine (String.ofList l) ↔ '\n' ∉ l := by
  simp [OneLine]

lemma notMem_intercalate {x : Char} (hs : x ∉ s.toList)
    (h : ∀ f ∈ fs, x ∉ f.toList) : x ∉ (String.intercalate s fs).toList := by
  induction fs with
  | nil => simp
  | cons f fs ih =>
    rw [List.forall_mem_cons] at h
    cases fs with
    | nil => simpa using h.1
    | cons g gs =>
      rw [String.intercalate_cons_of_ne_nil (by simp), String.toList_append, String.toList_append,
        List.mem_append, List.mem_append, not_or, not_or]
      exact ⟨⟨h.1, hs⟩, ih h.2⟩

lemma oneLine_intercalate (hs : OneLine s) (h : ∀ f ∈ fs, OneLine f) :
    OneLine (String.intercalate s fs) := notMem_intercalate hs h

def lines (fs : List String) : String := String.intercalate "\n" fs

lemma lines_cons_cons : (lines (f :: g :: fs)).toList = f.toList ++ '\n' :: (lines (g :: fs)).toList := by
  rw [lines, String.intercalate_cons_cons]
  simp [lines]

theorem first_line_inj {f' g' : String} {fs' : List String} (hf : OneLine f) (hf' : OneLine f')
    (h : lines (f :: g :: fs) = lines (f' :: g' :: fs')) :
    f = f' ∧ lines (g :: fs) = lines (g' :: fs') := by
  have hl := congrArg String.toList h
  rw [lines_cons_cons, lines_cons_cons] at hl
  obtain ⟨h₁, h₂⟩ := split_first hf hf' hl
  exact ⟨String.toList_inj.mp h₁, String.toList_inj.mp h₂⟩

theorem last_line_inj {e e' n n' : String} (he : OneLine e) (he' : OneLine e')
    (h : lines [n, e] = lines [n', e']) : n = n' ∧ e = e' := by
  have hl := congrArg String.toList h
  rw [lines_cons_cons, lines_cons_cons] at hl
  obtain ⟨h₁, h₂⟩ := split_last (by simpa [lines] using! he) (by simpa [lines] using! he') hl
  exact ⟨String.toList_inj.mp h₁, by simpa [lines, String.toList_inj] using h₂⟩

/-- Lines, then a text that may break anywhere, then one line. -/
theorem lines_inj {n n' e e' : String} (hlen : fs.length = gs.length) (hf : ∀ f ∈ fs, OneLine f)
    (hg : ∀ g ∈ gs, OneLine g) (he : OneLine e) (he' : OneLine e')
    (h : lines (fs ++ [n, e]) = lines (gs ++ [n', e'])) : fs = gs ∧ n = n' ∧ e = e' := by
  induction fs generalizing gs with
  | nil =>
    obtain rfl : gs = [] := List.length_eq_zero_iff.mp hlen.symm
    exact ⟨rfl, last_line_inj he he' h⟩
  | cons f fs ih =>
    cases gs with
    | nil => simp at hlen
    | cons g gs =>
      have cons_form : ∀ (ks : List String) (m d : String), ∃ k ks', ks ++ [m, d] = k :: ks' := by
        rintro (_ | ⟨k, ks⟩) m d
        · exact ⟨_, _, rfl⟩
        · exact ⟨_, _, rfl⟩
      obtain ⟨k, ks, hk⟩ := cons_form fs n e
      obtain ⟨l, ls, hl⟩ := cons_form gs n' e'
      rw [List.cons_append, List.cons_append, hk, hl] at h
      obtain ⟨rfl, hrest⟩ := first_line_inj (hf f (by simp)) (hg g (by simp)) h
      rw [← hk, ← hl] at hrest
      obtain ⟨rfl, hne⟩ := ih (by simpa using hlen) (fun x hx => hf x (by simp [hx]))
        (fun x hx => hg x (by simp [hx])) hrest
      exact ⟨rfl, hne⟩

/-- Fields without the separator can be read back from a text that joins them. -/
theorem intercalate_inj {x : Char} (hf : ∀ f ∈ fs, x ∉ f.toList) (hg : ∀ g ∈ gs, x ∉ g.toList)
    (hfs : fs ≠ []) (hgs : gs ≠ [])
    (h : String.intercalate (String.singleton x) fs = String.intercalate (String.singleton x) gs) :
    fs = gs := by
  have hl := congrArg (fun text => text.toList.splitOn x) h
  simp only [String.toList_intercalate, String.toList_singleton] at hl
  rw [List.splitOn_intercalate x (by simpa using hf) (by simpa using hfs),
    List.splitOn_intercalate x (by simpa using hg) (by simpa using hgs)] at hl
  exact (List.map_injective_iff.mpr fun _ _ => String.toList_inj.mp) hl

section Numbers

lemma notMem_toDigits {c : Char} {n b : ℕ} (hb : 1 < b) (hc : ∀ d, Nat.digitChar d ≠ c) :
    c ∉ Nat.toDigits b n := by
  induction n using Nat.strong_induction_on with
  | _ n ih =>
    rcases Nat.lt_or_ge n b with h | h
    · rw [Nat.toDigits_of_lt_base h, List.mem_singleton]
      exact (hc _).symm
    · rw [Nat.toDigits_of_base_le hb h, List.mem_append, List.mem_singleton, not_or]
      exact ⟨ih _ (Nat.div_lt_self (by omega) hb), (hc _).symm⟩

lemma digitChar_inj {a b : ℕ} (ha : a < 16) (hb : b < 16) (h : Nat.digitChar a = Nat.digitChar b) :
    a = b := by
  have all : ∀ a < 16, ∀ b < 16, Nat.digitChar a = Nat.digitChar b → a = b := by decide
  exact all a ha b hb h

/-- The digits determine the number. -/
theorem toDigits_inj {b n m : ℕ} (hb : 1 < b) (hb' : b ≤ 16)
    (h : Nat.toDigits b n = Nat.toDigits b m) : n = m := by
  induction n using Nat.strong_induction_on generalizing m with
  | _ n ih =>
    rcases Nat.lt_or_ge n b with hn | hn <;> rcases Nat.lt_or_ge m b with hm | hm
    · rw [Nat.toDigits_of_lt_base hn, Nat.toDigits_of_lt_base hm, List.cons.injEq] at h
      exact digitChar_inj (by omega) (by omega) h.1
    · have len := congrArg List.length h
      have pos : 0 < (Nat.toDigits b (m / b)).length := Nat.length_toDigits_pos
      rw [Nat.toDigits_of_lt_base hn, Nat.toDigits_of_base_le hb hm, List.length_append] at len
      simp only [List.length_singleton] at len
      omega
    · have len := congrArg List.length h
      have pos : 0 < (Nat.toDigits b (n / b)).length := Nat.length_toDigits_pos
      rw [Nat.toDigits_of_lt_base hm, Nat.toDigits_of_base_le hb hn, List.length_append] at len
      simp only [List.length_singleton] at len
      omega
    · rw [Nat.toDigits_of_base_le hb hn, Nat.toDigits_of_base_le hb hm] at h
      obtain ⟨high, low⟩ := List.append_inj' h rfl
      have hdiv := ih (n / b) (Nat.div_lt_self (by omega) hb) high
      have hn' := Nat.mod_lt n (show 0 < b by omega)
      have hm' := Nat.mod_lt m (show 0 < b by omega)
      have hmod := digitChar_inj (by omega) (by omega) (List.cons.inj low).1
      rw [← Nat.div_add_mod n b, ← Nat.div_add_mod m b, hdiv, hmod]

lemma isDigit_natRepr {n : ℕ} : ∀ c ∈ (Nat.repr n).toList, c.isDigit = true := by
  intro c hc
  rw [Nat.toList_repr] at hc
  exact Nat.isDigit_of_mem_toDigits (by decide) (by decide) hc

lemma notMem_natRepr {n : ℕ} {c : Char} (h : c.isDigit = false) : c ∉ (Nat.repr n).toList := by
  intro hc
  rw [isDigit_natRepr c hc] at h
  cases h

lemma uInt16_toString_injective : Function.Injective (toString : UInt16 → String) :=
  fun _ _ h => UInt16.toNat_inj.mp (Nat.repr_inj.mp h)

lemma uInt32_toString_injective : Function.Injective (toString : UInt32 → String) :=
  fun _ _ h => UInt32.toNat_inj.mp (Nat.repr_inj.mp h)

lemma oneLine_natRepr (n : ℕ) : OneLine (Nat.repr n) := notMem_natRepr (by decide)

lemma oneLine_intRepr (n : ℤ) : OneLine (Int.repr n) := by
  cases n with
  | ofNat n => exact oneLine_natRepr n
  | negSucc n => exact oneLine_append.mpr ⟨by decide, oneLine_natRepr _⟩

end Numbers

end Autopeer.LineText
