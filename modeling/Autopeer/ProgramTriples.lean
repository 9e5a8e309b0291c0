import Autopeer.RunFailures

/-! Weakest preconditions of programs: what every run from a state does, under every permitted
outcome of its calls, together with the calls that it may make. -/
namespace Autopeer.ProgramTriples
open ProgramTree ProgramRuns RunFailures

variable {E : Type} {R : E → Type} {O W α β ε : Type}
  {exec : O → (e : E) → W → Option (R e × W)} {P : E → O → Prop} {C : E → Prop}

/-- From `w` the program makes only calls in `C`, and ends with `Q` of its value and of the state. -/
def Must (exec : O → (e : E) → W → Option (R e × W)) (P : E → O → Prop) (C : E → Prop) :
    Program E R α → W → (α → W → Prop) → Prop
  | .done a, w, Q => Q a w
  | .call e next, w, Q =>
    C e ∧ ∀ o r w', P e o → exec o e w = some (r, w') → Must exec P C (next r) w' Q

variable {w w' : W} {p : Program E R α} {Q Q' : α → W → Prop}

lemma Must.mono (h : Must exec P C p w Q) (hQ : ∀ a v, Q a v → Q' a v) : Must exec P C p w Q' := by
  induction p generalizing w with
  | done a => exact hQ a w h
  | call e next ih => exact ⟨h.1, fun o r w' ho hx => ih r (h.2 o r w' ho hx)⟩

lemma must_bind {f : α → Program E R β} {Q : β → W → Prop} :
    Must exec P C (p >>= f) w Q ↔ Must exec P C p w fun a w' => Must exec P C (f a) w' Q := by
  induction p generalizing w with
  | done a => rfl
  | call e next ih => simp only [call_bind, Must, ih]

/-- A part that ends in `A` hands over to a continuation that copes with `A`. -/
lemma Must.bind {x : Action ε E R α} {f : α → Action ε E R β} {Q : Except ε β → W → Prop}
    {A : Except ε α → W → Prop} (h : Must exec P C x.run w A)
    (ok : ∀ a v, A (.ok a) v → Must exec P C (f a).run v Q)
    (error : ∀ e v, A (.error e) v → Q (.error e) v) : Must exec P C (x >>= f).run w Q := by
  rw [run_bind_eq, must_bind]
  refine h.mono fun r v hr => ?_
  cases r with
  | ok a => exact ok a v hr
  | error e => exact error e v hr

/-- A statement about the value of a program that ends well. -/
def IfOk (A : α → W → Prop) : Except ε α → W → Prop
  | .ok a, w => A a w
  | .error _, _ => True

lemma Must.andThen {x : Action ε E R α} {f : α → Action ε E R β} {B : β → W → Prop}
    {A : α → W → Prop} (h : Must exec P C x.run w (IfOk A))
    (ok : ∀ a v, A a v → Must exec P C (f a).run v (IfOk B)) :
    Must exec P C (x >>= f).run w (IfOk B) :=
  h.bind ok fun _ _ _ => trivial

lemma must_trivial {p : Program E R α} {w : W} :
    Must exec P (fun _ => True) p w fun _ _ => True := by
  induction p generalizing w with
  | done a => trivial
  | call e next ih => exact ⟨trivial, fun _ _ _ _ _ => ih _⟩

lemma Must.attempt {x : Action ε E R α} {Q : Except ε (Except ε α) → W → Prop}
    (h : Must exec P C x.run w fun r v => Q (.ok r) v) :
    Must exec P C (ProgramTree.attempt x).run w Q := must_bind.mpr h

/-- A loop whose rounds keep `I` while they end well. -/
lemma Must.forM {f : α → Action ε E R PUnit} {xs : List α} {I : List α → W → Prop}
    {Q : Except ε PUnit → W → Prop} (start : I xs w)
    (round : ∀ x ys v, I (x :: ys) v →
      Must exec P C (f x).run v fun r v' => match r with
        | .ok _ => I ys v'
        | .error e => Q (.error e) v')
    (last : ∀ v, I [] v → Q (.ok ()) v) : Must exec P C (xs.forM f).run w Q := by
  induction xs generalizing w with
  | nil => exact last w start
  | cons x xs ih =>
    exact Must.bind (x := f x) (f := fun _ => xs.forM f) (round x xs w start)
      (fun _ v hv => ih hv) fun _ _ h => h

/-- What a program must do, its runs do. -/
theorem Must.suffers {calls : List E} {a : α} (h : Must exec P C p w Q)
    (run : Suffers exec (fun _ _ => true) P w p calls a w') : Q a w' ∧ ∀ e ∈ calls, C e := by
  induction run with
  | done w a => exact ⟨h, fun _ he => absurd he List.not_mem_nil⟩
  | call o ho hx _ ih =>
    obtain ⟨hq, hcalls⟩ := ih (h.2 o _ _ ho hx)
    exact ⟨hq, List.forall_mem_cons.mpr ⟨h.1, hcalls⟩⟩

theorem Must.ends {a : α} (h : Must exec P C p w Q) (run : Ends exec P w p a w') : Q a w' := by
  induction run with
  | done w a => exact h
  | call o ho hx _ ih => exact ih (h.2 o _ _ ho hx)

/-- Where every call can be answered, there is a run. -/
theorem exists_run (answers : ∀ e v, ∃ o r v', P e o ∧ exec o e v = some (r, v'))
    (bad : (e : E) → R e → Bool) (p : Program E R α) (w : W) :
    ∃ calls a w', Suffers exec bad P w p calls a w' := by
  induction p generalizing w with
  | done a => exact ⟨[], a, w, .done w a⟩
  | call e next ih =>
    obtain ⟨o, r, v, ho, hx⟩ := answers e w
    obtain ⟨calls, a, w', run⟩ := ih r v
    exact ⟨_, a, w', .call o ho hx run⟩

end Autopeer.ProgramTriples
