import Autopeer.ProgramTree

/-! A program run on its own. `exec` gives the answer and the new state of each call under a
chosen outcome; `Ends` relates a start to every result the permitted outcomes lead to. -/
namespace Autopeer.ProgramRuns
open ProgramTree

variable {E : Type} {R : E → Type} {O W α β ε : Type}

/-- From `w` the program can return `a` and leave `w'`, every outcome being permitted by `P`. -/
inductive Ends (exec : O → (e : E) → W → Option (R e × W)) (P : E → O → Prop) :
    W → Program E R α → α → W → Prop
  | done (w : W) (a : α) : Ends exec P w (.done a) a w
  | call {w w' w'' : W} {e : E} {next : R e → Program E R α} {r : R e} {a : α} (o : O)
      (cond : P e o) (answer : exec o e w = some (r, w')) (rest : Ends exec P w' (next r) a w'') :
      Ends exec P w (.call e next) a w''

variable {exec : O → (e : E) → W → Option (R e × W)} {P : E → O → Prop}

@[simp] lemma ends_done {w w' : W} {a b : α} :
    Ends exec P w (.done a) b w' ↔ b = a ∧ w' = w := by
  constructor
  · intro h
    cases h
    exact ⟨rfl, rfl⟩
  · rintro ⟨rfl, rfl⟩
    exact .done _ _

lemma ends_call {w w'' : W} {e : E} {next : R e → Program E R α} {a : α} :
    Ends exec P w (.call e next) a w'' ↔
      ∃ o r w', P e o ∧ exec o e w = some (r, w') ∧ Ends exec P w' (next r) a w'' := by
  constructor
  · intro h
    cases h with
    | call o hc ha hr => exact ⟨o, _, _, hc, ha, hr⟩
  · rintro ⟨o, r, w', hc, ha, hr⟩
    exact .call o hc ha hr

/-- A sequence ends as its parts do, one after the other. -/
lemma ends_bind {w w'' : W} {p : Program E R α} {f : α → Program E R β} {b : β} :
    Ends exec P w (p >>= f) b w'' ↔
      ∃ a w', Ends exec P w p a w' ∧ Ends exec P w' (f a) b w'' := by
  induction p generalizing w with
  | done a => simp
  | call e next ih =>
    simp only [call_bind, ends_call, ih]
    constructor
    · rintro ⟨o, r, w₁, hc, ha, a, w₂, h₁, h₂⟩
      exact ⟨a, w₂, ⟨o, r, w₁, hc, ha, h₁⟩, h₂⟩
    · rintro ⟨a, w₂, ⟨o, r, w₁, hc, ha, h₁⟩, h₂⟩
      exact ⟨o, r, w₁, hc, ha, a, w₂, h₁, h₂⟩

lemma ends_run_bind {w w'' : W} {x : Action ε E R α} {f : α → Action ε E R β} {b : Except ε β} :
    Ends exec P w (x >>= f).run b w'' ↔
      ∃ a w', Ends exec P w x.run a w' ∧ Ends exec P w' (following f a) b w'' := by
  rw [run_bind_eq, ends_bind]

/-- An action that ends well did so through each of its parts. -/
lemma Ends.bind_ok {w w'' : W} {x : Action ε E R α} {f : α → Action ε E R β} {b : β}
    (h : Ends exec P w (x >>= f).run (.ok b) w'') :
    ∃ a w', Ends exec P w x.run (.ok a) w' ∧ Ends exec P w' (f a).run (.ok b) w'' := by
  obtain ⟨r, w', hr, hf⟩ := ends_run_bind.mp h
  cases r with
  | ok a => exact ⟨a, w', hr, hf⟩
  | error e => simp at hf

/-- What each call does to the state, a run of such calls does as a whole. -/
theorem Ends.rel {C : E → Prop} {I : W → W → Prop} {p : Program E R α} {a : α} {w w' : W}
    (h : Ends exec P w p a w') (hp : Calls C p) (refl : ∀ v, I v v)
    (trans : ∀ u v x, I u v → I v x → I u x)
    (call : ∀ o e v r v', C e → P e o → exec o e v = some (r, v') → I v v') : I w w' := by
  induction h with
  | done w a => exact refl w
  | call o hc ha _ ih => exact trans _ _ _ (call o _ _ _ _ hp.1 hc ha) (ih (hp.2 _))

/-- A loop that ends well: `I` holds before each element and after the last. -/
theorem Ends.forM_ok {f : α → Action ε E R PUnit} {xs : List α} {I : List α → W → Prop}
    {w w' : W} (h : Ends exec P w (xs.forM f).run (.ok ()) w')
    (start : I xs w)
    (keep : ∀ x ys v v', x :: ys <:+ xs → I (x :: ys) v → Ends exec P v (f x).run (.ok ()) v' →
      I ys v') : I [] w' := by
  induction xs generalizing w with
  | nil =>
    obtain ⟨-, rfl⟩ := ends_done.mp h
    exact start
  | cons x xs ih =>
    obtain ⟨_, w₁, hx, hxs⟩ := Ends.bind_ok (x := f x) (f := fun _ => xs.forM f) h
    exact ih hxs (keep x xs w w₁ (List.suffix_refl _) start hx) fun y ys v v' hs =>
      keep y ys v v' (hs.trans (List.suffix_cons _ _))

/-- A loop that ends well, whose every round moves the state by `C` and leaves `G` of its
element, which later rounds do not undo. -/
theorem Ends.forM_rel {f : α → Action ε E R PUnit} {xs : List α} {C : W → W → Prop}
    {G : α → W → Prop} {w w' : W} (refl : ∀ v, C v v)
    (trans : ∀ u v x, C u v → C v x → C u x) (stable : ∀ x v v', G x v → C v v' → G x v')
    (h : Ends exec P w (xs.forM f).run (.ok ()) w')
    (body : ∀ x ∈ xs, ∀ v v', C w v → Ends exec P v (f x).run (.ok ()) v' → C v v' ∧ G x v') :
    C w w' ∧ ∀ x ∈ xs, G x w' := by
  have key : C w w' ∧ ∀ x ∈ xs, x ∉ ([] : List α) → G x w' := by
    refine h.forM_ok (I := fun rest v => C w v ∧ ∀ x ∈ xs, x ∉ rest → G x v)
      ⟨refl w, fun x hx hn => absurd hx hn⟩ fun x ys v v' hs hI hb => ?_
    obtain ⟨hv, hG⟩ := body x (hs.subset (List.mem_cons_self)) v v' hI.1 hb
    refine ⟨trans _ _ _ hI.1 hv, fun y hy hn => ?_⟩
    by_cases hyx : y = x
    · exact hyx ▸ hG
    · exact stable y v v' (hI.2 y hy (by simp [hyx, hn])) hv
  exact ⟨key.1, fun x hx => key.2 x hx List.not_mem_nil⟩

section Single
variable {run : (e : E) → W → Option (R e × W)}

/-- The one run of a program whose calls are answered by a function; `none` if a call blocks. -/
def runWith (run : (e : E) → W → Option (R e × W)) : Program E R α → W → Option (α × W)
  | .done a, w => some (a, w)
  | .call e next, w => (run e w).bind fun x => runWith run (next x.1) x.2

@[simp] lemma runWith_done {a : α} {w : W} : runWith run (.done a) w = some (a, w) := rfl

lemma runWith_bind {p : Program E R α} {f : α → Program E R β} {w : W} :
    runWith run (p >>= f) w = (runWith run p w).bind fun x => runWith run (f x.1) x.2 := by
  induction p generalizing w with
  | done a => rfl
  | call e next ih =>
    simp only [call_bind, runWith, ih]
    cases run e w <;> rfl

lemma runWith_run_bind {x : Action ε E R α} {f : α → Action ε E R β} {w : W} :
    runWith run (x >>= f).run w =
      (runWith run x.run w).bind fun y => runWith run (following f y.1) y.2 := by
  rw [run_bind_eq, runWith_bind]

lemma runWith_bind_ok {x : Action ε E R α} {f : α → Action ε E R β} {a : α} {w w' : W}
    (h : runWith run x.run w = some (.ok a, w')) :
    runWith run (x >>= f).run w = runWith run (f a).run w' := by
  rw [runWith_run_bind, h]
  rfl

lemma runWith_bind_error {x : Action ε E R α} {f : α → Action ε E R β} {e : ε} {w w' : W}
    (h : runWith run x.run w = some (.error e, w')) :
    runWith run (x >>= f).run w = some (.error e, w') := by
  rw [runWith_run_bind, h]
  rfl

/-- A loop whose every round works: `I` holds before each element and after the last. -/
theorem runWith_forM (run : (e : E) → W → Option (R e × W)) (f : α → Action ε E R PUnit) (xs : List α)
    {I : List α → W → Prop} {w : W}
    (start : I xs w)
    (round : ∀ x ys v, x :: ys <:+ xs → I (x :: ys) v →
      ∃ v', runWith run (f x).run v = some (.ok (), v') ∧ I ys v') :
    ∃ w', runWith run (xs.forM f).run w = some (.ok (), w') ∧ I [] w' := by
  induction xs generalizing w with
  | nil => exact ⟨w, rfl, start⟩
  | cons x xs ih =>
    obtain ⟨v, hv, hI⟩ := round x xs w (List.suffix_refl _) start
    obtain ⟨w', hw', hI'⟩ := ih hI fun y ys u hs => round y ys u (hs.trans (List.suffix_cons _ _))
    exact ⟨w', (runWith_bind_ok (x := f x) (f := fun _ => xs.forM f) hv).trans hw', hI'⟩

lemma runWith_forM_append {f : α → Action ε E R PUnit} {xs ys : List α} {w w' : W}
    (h : runWith run (xs.forM f).run w = some (.ok (), w')) :
    runWith run ((xs ++ ys).forM f).run w = runWith run (ys.forM f).run w' := by
  induction xs generalizing w with
  | nil =>
    change some ((.ok () : Except ε PUnit), w) = _ at h
    cases h
    rfl
  | cons x xs ih =>
    change runWith run (f x >>= fun _ => xs.forM f).run w = _ at h
    change runWith run (f x >>= fun _ => (xs ++ ys).forM f).run w = _
    rw [runWith_run_bind] at h ⊢
    cases hx : runWith run (f x).run w with
    | none => simp [hx] at h
    | some y =>
      obtain ⟨r, v⟩ := y
      rw [hx] at h
      cases r with
      | error e => simp at h
      | ok u => exact ih h

/-- The answering function may use a part of the state that the relation `Ends` does not see. -/
theorem runWith_ends {V : Type} (view : V → W) {answer : (e : E) → V → Option (R e × V)}
    (sound : ∀ e v r v', answer e v = some (r, v') → ∃ o, P e o ∧ exec o e (view v) = some (r, view v'))
    {p : Program E R α} {v v' : V} {a : α} (h : runWith answer p v = some (a, v')) :
    Ends exec P (view v) p a (view v') := by
  induction p generalizing v with
  | done b =>
    obtain ⟨rfl, rfl⟩ : b = a ∧ v = v' := by simpa using h
    exact .done _ _
  | call e next ih =>
    simp only [runWith, Option.bind_eq_some_iff] at h
    obtain ⟨⟨r, u⟩, hu, hrest⟩ := h
    obtain ⟨o, hP, ho⟩ := sound e v r u hu
    exact .call o hP ho (ih r hrest)

/-- From `v` the action ends well, with `Q` of its value and of the last state. -/
def Returns (run : (e : E) → W → Option (R e × W)) (v : W) (x : Action ε E R α)
    (Q : α → W → Prop) : Prop :=
  ∃ a v', runWith run x.run v = some (.ok a, v') ∧ Q a v'

variable {v : W} {Q : α → W → Prop}

lemma Returns.mono {x : Action ε E R α} {Q' : α → W → Prop} (h : Returns run v x Q)
    (hQ : ∀ a u, Q a u → Q' a u) : Returns run v x Q' := by
  obtain ⟨a, u, hrun, hq⟩ := h
  exact ⟨a, u, hrun, hQ a u hq⟩

lemma returns_pure {a : α} (h : Q a v) : Returns run v (pure a : Action ε E R α) Q :=
  ⟨a, v, rfl, h⟩

lemma Returns.bind {x : Action ε E R α} {f : α → Action ε E R β} {Q' : β → W → Prop}
    (h : Returns run v x fun a u => Returns run u (f a) Q') : Returns run v (x >>= f) Q' := by
  obtain ⟨a, u, hrun, b, u', hrun', hq⟩ := h
  exact ⟨b, u', (runWith_bind_ok hrun).trans hrun', hq⟩

/-- An attempt at an action that ends well. -/
lemma Returns.attempt {x : Action ε E R α} {Q' : Except ε α → W → Prop}
    (h : Returns run v x fun a u => Q' (.ok a) u) : Returns run v (ProgramTree.attempt x) Q' := by
  obtain ⟨a, u, hrun, hq⟩ := h
  refine ⟨.ok a, u, ?_, hq⟩
  rw [attempt_run, runWith_bind, hrun]
  rfl

end Single

end Autopeer.ProgramRuns
