import Autopeer.ProgramRuns

/-! Runs with failures: a run together with the list of its calls that were answered badly. A part
of a run that suffered none of them is a run all of whose calls worked. -/
namespace Autopeer.RunFailures
open ProgramTree ProgramRuns

variable {E : Type} {R : E → Type} {O W α β ε : Type}

/-- As `Ends`, with the calls whose answer was bad, in order. -/
inductive Suffers (exec : O → (e : E) → W → Option (R e × W)) (bad : (e : E) → R e → Bool)
    (P : E → O → Prop) : W → Program E R α → List E → α → W → Prop
  | done (w : W) (a : α) : Suffers exec bad P w (.done a) [] a w
  | call {w w' w'' : W} {e : E} {next : R e → Program E R α} {r : R e} {failed : List E} {a : α}
      (o : O) (cond : P e o) (answer : exec o e w = some (r, w'))
      (rest : Suffers exec bad P w' (next r) failed a w'') :
      Suffers exec bad P w (.call e next) (if bad e r then e :: failed else failed) a w''

variable {exec : O → (e : E) → W → Option (R e × W)} {bad : (e : E) → R e → Bool}
  {P : E → O → Prop} {w w' w'' : W} {failed : List E}

@[simp] lemma suffers_done {a b : α} :
    Suffers exec bad P w (.done a) failed b w' ↔ failed = [] ∧ b = a ∧ w' = w := by
  constructor
  · intro h
    cases h
    exact ⟨rfl, rfl, rfl⟩
  · rintro ⟨rfl, rfl, rfl⟩
    exact .done _ _

lemma suffers_call {e : E} {next : R e → Program E R α} {a : α} :
    Suffers exec bad P w (.call e next) failed a w'' ↔
      ∃ o r w' rest, P e o ∧ exec o e w = some (r, w') ∧ Suffers exec bad P w' (next r) rest a w'' ∧
        failed = if bad e r then e :: rest else rest := by
  constructor
  · intro h
    cases h with
    | call o hc ha hr => exact ⟨o, _, _, _, hc, ha, hr, rfl⟩
  · rintro ⟨o, r, w', rest, hc, ha, hr, rfl⟩
    exact .call o hc ha hr

/-- The failures of a sequence are those of its parts. -/
theorem suffers_bind {p : Program E R α} {f : α → Program E R β} {b : β} :
    Suffers exec bad P w (p >>= f) failed b w'' ↔
      ∃ a w' first second, Suffers exec bad P w p first a w' ∧
        Suffers exec bad P w' (f a) second b w'' ∧ failed = first ++ second := by
  induction p generalizing w failed with
  | done a => simp
  | call e next ih =>
    simp only [call_bind, suffers_call, ih]
    constructor
    · rintro ⟨o, r, w₁, -, hc, ha, ⟨a, w₂, first, second, h₁, h₂, rfl⟩, rfl⟩
      refine ⟨a, w₂, _, second, ⟨o, r, w₁, first, hc, ha, h₁, rfl⟩, h₂, ?_⟩
      split <;> rfl
    · rintro ⟨a, w₂, -, second, ⟨o, r, w₁, first, hc, ha, h₁, rfl⟩, h₂, rfl⟩
      refine ⟨o, r, w₁, _, hc, ha, ⟨a, w₂, first, second, h₁, h₂, rfl⟩, ?_⟩
      split <;> rfl

lemma suffers_run_bind {x : Action ε E R α} {f : α → Action ε E R β} {b : Except ε β} :
    Suffers exec bad P w (x >>= f).run failed b w'' ↔
      ∃ a w' first second, Suffers exec bad P w x.run first a w' ∧
        Suffers exec bad P w' (following f a) second b w'' ∧ failed = first ++ second := by
  rw [run_bind_eq, suffers_bind]

lemma suffers_attempt_bind {x : Action ε E R α} {f : Except ε α → Action ε E R β}
    {b : Except ε β} :
    Suffers exec bad P w (attempt x >>= f).run failed b w'' ↔
      ∃ a w' first second, Suffers exec bad P w x.run first a w' ∧
        Suffers exec bad P w' (f a).run second b w'' ∧ failed = first ++ second := by
  rw [run_bind_eq, attempt_run, bind_assoc, suffers_bind]
  rfl

lemma Suffers.ends {p : Program E R α} {a : α} (h : Suffers exec bad P w p failed a w') :
    Ends exec P w p a w' := by
  induction h with
  | done w a => exact .done w a
  | call o hc ha _ ih => exact .call o hc ha ih

theorem Suffers.rel {C : E → Prop} {I : W → W → Prop} {p : Program E R α} {a : α}
    (h : Suffers exec bad P w p failed a w') (hp : Calls C p) (refl : ∀ v, I v v)
    (trans : ∀ u v x, I u v → I v x → I u x)
    (call : ∀ o e v r v', C e → P e o → exec o e v = some (r, v') → I v v') : I w w' :=
  h.ends.rel hp refl trans call

/-- Only calls that the program can make fail. -/
lemma Suffers.calls {C : E → Prop} {p : Program E R α} {a : α}
    (h : Suffers exec bad P w p failed a w') (hp : Calls C p) : ∀ e ∈ failed, C e := by
  induction h with
  | done w a => simp
  | call o hc ha _ ih =>
    have rest := ih (hp.2 _)
    split
    · simpa using ⟨hp.1, rest⟩
    · exact rest

/-- Calls that mean the same under two readings have the same runs. -/
theorem Suffers.transfer {O' : Type} {exec' : O' → (e : E) → W → Option (R e × W)}
    {bad' : (e : E) → R e → Bool} {P' : E → O' → Prop} {C : E → Prop} {p : Program E R α} {a : α}
    (h : Suffers exec bad P w p failed a w') (hp : Calls C p)
    (same : ∀ o e v r v', C e → P e o → exec o e v = some (r, v') →
      (∃ o', P' e o' ∧ exec' o' e v = some (r, v')) ∧ bad' e r = bad e r) :
    Suffers exec' bad' P' w p failed a w' := by
  induction h with
  | done w a => exact .done w a
  | call o hc ha _ ih =>
    obtain ⟨⟨o', ho', hx⟩, hbad⟩ := same o _ _ _ _ hp.1 hc ha
    rw [← hbad]
    exact .call o' ho' hx (ih (hp.2 _))

/-- An action that ends well exactly when none of its calls failed. -/
def Strict (exec : O → (e : E) → W → Option (R e × W)) (bad : (e : E) → R e → Bool)
    (P : E → O → Prop) (x : Action ε E R α) : Prop :=
  ∀ w failed r w', Suffers exec bad P w x.run failed r w' → ((∃ a, r = .ok a) ↔ failed = [])

lemma Strict.bind {x : Action ε E R α} {f : α → Action ε E R β} (hx : Strict exec bad P x)
    (hf : ∀ a, Strict exec bad P (f a)) : Strict exec bad P (x >>= f) := by
  intro w failed r w'' h
  obtain ⟨a, w', first, second, h₁, h₂, rfl⟩ := suffers_run_bind.mp h
  have hfirst := hx _ _ _ _ h₁
  cases a with
  | ok a =>
    obtain rfl : first = [] := hfirst.mp ⟨a, rfl⟩
    exact hf a _ _ _ _ h₂
  | error e =>
    obtain ⟨rfl, rfl, rfl⟩ := suffers_done.mp h₂
    simpa using hfirst

lemma Strict.pure (a : α) : Strict exec bad P (Pure.pure a : Action ε E R α) := by
  intro w failed r w' h
  obtain ⟨rfl, rfl, -⟩ := suffers_done.mp h
  exact ⟨fun _ => rfl, fun _ => ⟨a, rfl⟩⟩

lemma Strict.ok {x : Action ε E R α} (hx : Strict exec bad P x) {a : α}
    (h : Suffers exec bad P w x.run failed (.ok a) w') : failed = [] := (hx _ _ _ _ h).mp ⟨a, rfl⟩

lemma Strict.error {x : Action ε E R α} (hx : Strict exec bad P x) {e : ε}
    (h : Suffers exec bad P w x.run failed (.error e) w') : failed ≠ [] := by
  intro hf
  obtain ⟨a, ha⟩ := (hx _ _ _ _ h).mpr hf
  cases ha

lemma Strict.works {x : Action ε E R α} (hx : Strict exec bad P x) {r : Except ε α}
    (h : Suffers exec bad P w x.run [] r w') : ∃ a, r = .ok a := (hx _ _ _ _ h).mpr rfl

/-- The one run in which each call meets the outcome that is chosen for it. -/
def trial (exec : O → (e : E) → W → Option (R e × W)) (bad : (e : E) → R e → Bool)
    (choose : E → O) : Program E R α → W → Option (List E × α × W)
  | .done a, w => some ([], a, w)
  | .call e next, w =>
    (exec (choose e) e w).bind fun x =>
      (trial exec bad choose (next x.1) x.2).map fun y =>
        (if bad e x.1 then e :: y.1 else y.1, y.2)

theorem trial_suffers {choose : E → O} (hP : ∀ e, P e (choose e)) {p : Program E R α} {a : α}
    (h : trial exec bad choose p w = some (failed, a, w')) :
    Suffers exec bad P w p failed a w' := by
  induction p generalizing w failed with
  | done b =>
    obtain ⟨rfl, rfl, rfl⟩ : [] = failed ∧ b = a ∧ w = w' := by simpa [trial] using h
    exact .done _ _
  | call e next ih =>
    obtain ⟨⟨r, v⟩, hr, hrest⟩ := Option.bind_eq_some_iff.mp h
    obtain ⟨⟨rest, b, u⟩, hu, he⟩ := Option.map_eq_some_iff.mp hrest
    cases he
    exact .call _ (hP e) hr (ih r hu)

end Autopeer.RunFailures
