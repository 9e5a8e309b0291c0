import Autopeer.ProgramPool
import Autopeer.TransitionRuns

/-! Tasks that are dropped at a call. Such a task makes no further call, and only its guards are
released. Where none of the calls that are left has to be waited for once one has failed, a run in
which they all fail leaves the same state. -/
namespace Autopeer.ProgramUnwinding
open ProgramTree ProgramPool TransitionRuns

variable {E : Type} {R : E → Type} {O W T M K L α : Type}

/-- A call on the way out of a program. -/
inductive Exit (K A : Type)
  /-- It may fail with this answer, and does nothing then. -/
  | fails (answer : A)
  /-- It releases a guard. -/
  | releases (guard : K) (answer : A)
  /-- It is not made on the way out. -/
  | stays

variable (exit : (e : E) → Exit K (R e))

/-- The guards that a program releases when all its calls fail, in their order, and what it returns
then. -/
def unwound : Program E R α → Option (List K × α)
  | .done a => some ([], a)
  | .call e next =>
    match exit e with
    | .fails r => unwound (next r)
    | .releases k r => (unwound (next r)).map fun x => (k :: x.1, x.2)
    | .stays => none

/-- Release guards in their order. -/
def releaseAll (release : K → W → W) (guards : List K) (w : W) : W :=
  guards.foldl (fun w k => release k w) w

variable (exec : O → (e : E) → W → Option (R e × W)) (release : K → W → W)

/-- Task `i` is dropped at its call, which fails with the effect of `o`. Nobody gets its result. -/
def dropTask (failed : (e : E) → R e → Bool) (i : ℕ) (o : O) (s : Pool W T E R α) :
    Option (Pool W T E R α) :=
  match s.tasks[i]? with
  | some (t, .call e next) =>
    (exec o e s.world).bind fun x =>
      if failed e x.1 then
        (unwound exit (next x.1)).map fun y =>
          ⟨releaseAll release y.1 x.2, s.tasks.set i (t, .done y.2)⟩
      else none
  | _ => none

variable {exit exec release} {failed : (e : E) → R e → Bool} {s s' : Pool W T E R α} {i : ℕ} {o : O}

theorem dropTask_cases (h : dropTask exit exec release failed i o s = some s') :
    ∃ t e next r w given a, s.tasks[i]? = some (t, .call e next) ∧ exec o e s.world = some (r, w) ∧
      failed e r = true ∧ unwound exit (next r) = some (given, a) ∧
      s' = ⟨releaseAll release given w, s.tasks.set i (t, .done a)⟩ := by
  unfold dropTask at h
  split at h
  · rename_i t e next ht
    obtain ⟨⟨r, w⟩, hx, h⟩ := Option.bind_eq_some_iff.mp h
    obtain ⟨hr, h⟩ := Option.ite_none_right_eq_some.mp h
    obtain ⟨⟨given, a⟩, hu, rfl⟩ := Option.map_eq_some_iff.mp h
    exact ⟨t, e, next, r, w, given, a, ht, hx, hr, hu, rfl⟩
  · cases h

/-- The calls do on the way out what `exit` says. -/
structure Sound (exit : (e : E) → Exit K (R e)) (exec : O → (e : E) → W → Option (R e × W))
    (release : K → W → W) : Prop where
  fails : ∀ e r, exit e = .fails r → ∀ w, ∃ o, exec o e w = some (r, w)
  releases : ∀ e k r, exit e = .releases k r → ∀ w, ∃ o, exec o e w = some (r, release k w)

variable {step : L → Pool W T E R α → Option (Pool W T E R α)}

/-- What is left of a task can all fail; its guards are released then. -/
theorem Sound.unwinds (h : Sound exit exec release) (task : O → L)
    (steps : ∀ o s, step (task o) s = s.stepTask exec i o) {t : T} {p : Program E R α} {given : List K}
    {a : α} (ht : s.tasks[i]? = some (t, p)) (hu : unwound exit p = some (given, a)) :
    Reaches step (fun _ l => ∃ o, l = task o) s
      ⟨releaseAll release given s.world, s.tasks.set i (t, .done a)⟩ := by
  induction p generalizing s given with
  | done b =>
    obtain ⟨rfl, rfl⟩ : given = [] ∧ b = a := by simpa [unwound, eq_comm] using hu
    have kept : s.tasks.set i (t, .done b) = s.tasks := by
      obtain ⟨hi, hp⟩ := List.getElem?_eq_some_iff.mp ht
      rw [← hp, List.set_getElem_self]
    rw [kept]
    exact .refl
  | call e next ih =>
    have hi := (List.getElem?_eq_some_iff.mp ht).1
    have onward : ∀ {r w rest}, (∃ o, exec o e s.world = some (r, w)) →
        unwound exit (next r) = some (rest, a) →
        Reaches step (fun _ l => ∃ o, l = task o) s
          ⟨releaseAll release rest w, s.tasks.set i (t, .done a)⟩ := by
      rintro r w rest ⟨o, hx⟩ hr
      have moved : step (task o) s = some ⟨w, s.tasks.set i (t, next r)⟩ := by
        simp [steps, Pool.stepTask, ht, hx]
      have last := ih r (s := ⟨w, s.tasks.set i (t, next r)⟩) (List.getElem?_set_self hi) hr
      refine (Reaches.refl.tail (task o) ⟨o, rfl⟩ moved).trans ?_
      simpa [List.set_set] using last
    simp only [unwound] at hu
    split at hu
    · rename_i r he
      exact onward (h.fails e r he s.world) hu
    · rename_i k r he
      obtain ⟨⟨rest, b⟩, hr, hb⟩ := Option.map_eq_some_iff.mp hu
      obtain ⟨rfl, rfl⟩ := Prod.mk.inj hb
      have first := onward (h.releases e k r he s.world) hr
      exact first
    · cases hu

/-- A drop leads nowhere that the task alone does not. -/
theorem Sound.drop_reaches (h : Sound exit exec release) (task : O → L)
    (steps : ∀ o s, step (task o) s = s.stepTask exec i o)
    (hs : dropTask exit exec release failed i o s = some s') :
    Reaches step (fun _ l => ∃ o, l = task o) s s' := by
  obtain ⟨t, e, next, r, w, given, a, ht, hx, -, hu, rfl⟩ := dropTask_cases hs
  have hi := (List.getElem?_eq_some_iff.mp ht).1
  have moved : step (task o) s = some ⟨w, s.tasks.set i (t, next r)⟩ := by
    simp [steps, Pool.stepTask, ht, hx]
  have last := h.unwinds task steps (s := ⟨w, s.tasks.set i (t, next r)⟩) (List.getElem?_set_self hi) hu
  refine (Reaches.refl.tail (task o) ⟨o, rfl⟩ moved).trans ?_
  simpa [List.set_set] using last

/-- From a mode in which a call has failed the discipline allows only calls of the way out, and
`held` lists the guards that are still to be released. -/
structure LeadsOut (D : Discipline E R M) (exit : (e : E) → Exit K (R e)) (lost : M → Prop)
    (held : M → List K) : Prop where
  made : ∀ m e, lost m → D.allowed m e → exit e ≠ .stays
  fails : ∀ m e r, lost m → D.allowed m e → exit e = .fails r →
    D.answer m e r ∧ lost (D.next m e r) ∧ held (D.next m e r) = held m
  releases : ∀ m e k r, lost m → D.allowed m e → exit e = .releases k r →
    D.answer m e r ∧ lost (D.next m e r) ∧ (k :: held (D.next m e r)).Perm (held m)

/-- A program that follows such a discipline and ends with no guard gives back what it has. -/
theorem LeadsOut.unwound {D : Discipline E R M} {lost : M → Prop} {held : M → List K}
    (h : LeadsOut D exit lost held) {p : Program E R α} {m : M} (hm : lost m)
    (hp : Follows D p m fun m' _ => held m' = []) :
    ∃ given a, unwound exit p = some (given, a) ∧ given.Perm (held m) := by
  induction p generalizing m with
  | done a => exact ⟨[], a, rfl, .of_eq (Eq.symm hp)⟩
  | call e next ih =>
    obtain ⟨allowed, rest⟩ := hp
    cases he : exit e with
    | fails r =>
      obtain ⟨hr, hm', same⟩ := h.fails m e r hm allowed he
      obtain ⟨given, a, hu, back⟩ := ih r hm' (rest r hr)
      exact ⟨given, a, by simp only [ProgramUnwinding.unwound, he, hu], same ▸ back⟩
    | releases k r =>
      obtain ⟨hr, hm', first⟩ := h.releases m e k r hm allowed he
      obtain ⟨given, a, hu, back⟩ := ih r hm' (rest r hr)
      exact ⟨k :: given, a, by simp [ProgramUnwinding.unwound, he, hu], (back.cons k).trans first⟩
    | stays => exact absurd he (h.made m e hm allowed)

end Autopeer.ProgramUnwinding
