import Mathlib.Tactic

/-! Runs of a system that takes one labelled step at a time. A run may be restricted by a
condition on each step and on the state before it. -/
namespace Autopeer.TransitionRuns

variable {S L : Type}

/-- The states that steps meeting `P` lead to. -/
inductive Reaches (step : L → S → Option S) (P : S → L → Prop) (s : S) : S → Prop
  | refl : Reaches step P s s
  | tail {t u : S} (l : L) (prior : Reaches step P s t) (cond : P t l) (next : step l t = some u) :
      Reaches step P s u

variable {step : L → S → Option S} {P Q : S → L → Prop} {s t u : S}

lemma Reaches.trans (h : Reaches step P s t) (g : Reaches step P t u) : Reaches step P s u := by
  induction g with
  | refl => exact h
  | tail l _ hc hn ih => exact ih.tail l hc hn

lemma Reaches.mono (hPQ : ∀ t l, P t l → Q t l) (h : Reaches step P s t) : Reaches step Q s t := by
  induction h with
  | refl => exact .refl
  | tail l _ hc hn ih => exact ih.tail l (hPQ _ _ hc) hn

/-- What holds at the start and survives each step holds in every state of the run. -/
theorem Reaches.invariant {J : S → Prop} (h : Reaches step P s t) (start : J s)
    (keep : ∀ u l v, J u → P u l → step l u = some v → J v) : J t := by
  induction h with
  | refl => exact start
  | tail l _ hc hn ih => exact keep _ l _ ih hc hn

/-- An invariant may lean on facts already known of every reachable state. -/
theorem Reaches.invariant_with {J K : S → Prop} (h : Reaches step P s t) (start : J s)
    (known : ∀ u, Reaches step P s u → K u)
    (keep : ∀ u l v, K u → J u → P u l → step l u = some v → J v) : J t := by
  induction h with
  | refl => exact start
  | tail l hp hc hn ih => exact keep _ l _ (known _ hp) ih hc hn

/-- Where each step is matched by a run of another system, each run is. -/
theorem Reaches.simulation {S' L' : Type} {step' : L' → S' → Option S'} {P' : S' → L' → Prop}
    {B : S → S' → Prop} {s' : S'} (h : Reaches step P s t) (start : B s s')
    (matched : ∀ u l v u', B u u' → P u l → step l u = some v → ∃ v', Reaches step' P' u' v' ∧ B v v') :
    ∃ t', Reaches step' P' s' t' ∧ B t t' := by
  induction h with
  | refl => exact ⟨s', .refl, start⟩
  | tail l _ hc hn ih =>
    obtain ⟨u', hu', hB⟩ := ih
    obtain ⟨v', hv', hB'⟩ := matched _ l _ u' hB hc hn
    exact ⟨v', hu'.trans hv', hB'⟩

/-- Take the listed steps in order; the answer is `none` as soon as one cannot be taken. -/
def steps (step : L → S → Option S) : List L → S → Option S
  | [], s => some s
  | l :: ls, s => (step l s).bind (steps step ls)

lemma steps_append {ls ls' : List L} :
    steps step (ls ++ ls') s = (steps step ls s).bind (steps step ls') := by
  induction ls generalizing s with
  | nil => rfl
  | cons l ls ih =>
    simp only [List.cons_append, steps]
    cases step l s with
    | none => rfl
    | some t => exact ih

/-- What holds at the start and survives each step holds of every run and the steps taken in it. -/
theorem steps_induction {J : List L → S → Prop} (start : J [] s)
    (keep : ∀ ls t l u, steps step ls s = some t → J ls t → step l t = some u → J (ls ++ [l]) u)
    {ls : List L} (h : steps step ls s = some t) : J ls t := by
  induction ls using List.reverseRecOn generalizing t with
  | nil =>
    obtain rfl : s = t := by simpa [steps] using h
    exact start
  | append_singleton ls l ih =>
    rw [steps_append] at h
    obtain ⟨u, hu, hl⟩ := Option.bind_eq_some_iff.mp h
    obtain ⟨t', ht, he⟩ := Option.bind_eq_some_iff.mp hl
    obtain rfl : t' = t := by simpa [steps] using he
    exact keep ls u l t' hu (ih hu) ht

/-- The listed steps can be taken in order and each meets the condition. -/
def Schedule (step : L → S → Option S) (P : S → L → Prop) : List L → S → Prop
  | [], _ => True
  | l :: ls, s => P s l ∧ ∀ t, step l s = some t → Schedule step P ls t

lemma Schedule.of_forall {ls : List L} (h : ∀ l ∈ ls, ∀ t, P t l) : Schedule step P ls s := by
  induction ls generalizing s with
  | nil => trivial
  | cons l ls ih => exact ⟨h l (by simp) s, fun _ _ => ih fun l' hl' => h l' (by simp [hl'])⟩

theorem steps_reaches {ls : List L} (hp : Schedule step P ls s) (h : steps step ls s = some t) :
    Reaches step P s t := by
  induction ls generalizing s with
  | nil =>
    obtain rfl : s = t := by simpa [steps] using h
    exact .refl
  | cons l ls ih =>
    obtain ⟨u, hu, hut⟩ := Option.bind_eq_some_iff.mp h
    exact (Reaches.refl.tail l hp.1 hu).trans (ih (hp.2 u hu) hut)

/-- The steps that meet the condition, and no others. -/
def guarded (step : L → S → Option S) (P : S → L → Prop) [∀ s l, Decidable (P s l)] (l : L) (s : S) :
    Option S := if P s l then step l s else none

theorem steps_guarded_reaches [∀ s l, Decidable (P s l)] {ls : List L}
    (h : steps (guarded step P) ls s = some t) : Reaches step P s t := by
  induction ls generalizing s with
  | nil =>
    obtain rfl : s = t := by simpa [steps] using h
    exact .refl
  | cons l ls ih =>
    obtain ⟨u, hu, hut⟩ := Option.bind_eq_some_iff.mp h
    obtain ⟨hp, hu⟩ := Option.ite_none_right_eq_some.mp hu
    exact (Reaches.refl.tail l hp hu).trans (ih hut)

end Autopeer.TransitionRuns
