import Autopeer.ProgramTree

/-! Programs that run side by side on one state, one call at a time in any order. A discipline
gives each task a mode that its own calls move; an invariant of the state and of all modes is
checked once for each call, and each program is checked once against the discipline. -/
namespace Autopeer.ProgramPool
open ProgramTree

variable {E : Type} {R : E → Type} {O W T M α β ε : Type}

/-- The shared state and the tasks, each with what it was started for and what it still has to do. -/
structure Pool (W T E : Type) (R : E → Type) (α : Type) where
  world : W
  tasks : List (T × Program E R α)

/-- Task `i` makes its next call under outcome `o`. -/
def Pool.stepTask (exec : O → (e : E) → W → Option (R e × W)) (i : ℕ) (o : O)
    (s : Pool W T E R α) : Option (Pool W T E R α) :=
  match s.tasks[i]? with
  | some (t, .call e next) =>
    (exec o e s.world).map fun a => ⟨a.2, s.tasks.set i (t, next a.1)⟩
  | _ => none

def Pool.spawn (t : T) (p : Program E R α) (s : Pool W T E R α) : Pool W T E R α :=
  { s with tasks := s.tasks ++ [(t, p)] }

variable {exec : O → (e : E) → W → Option (R e × W)} {s s' : Pool W T E R α}

theorem Pool.stepTask_cases {i : ℕ} {o : O} (h : s.stepTask exec i o = some s') :
    ∃ t e next r w', s.tasks[i]? = some (t, .call e next) ∧ exec o e s.world = some (r, w') ∧
      s' = ⟨w', s.tasks.set i (t, next r)⟩ := by
  unfold Pool.stepTask at h
  split at h
  · rename_i t e next ht
    obtain ⟨⟨r, w'⟩, hx, rfl⟩ := Option.map_eq_some_iff.mp h
    exact ⟨t, e, next, r, w', ht, hx, rfl⟩
  · cases h

/-- What a task may call in each mode, which answers can come, and the mode they lead to; `rest` is
the mode of an index that no task has yet. -/
structure Discipline (E : Type) (R : E → Type) (M : Type) where
  rest : M
  allowed : M → E → Prop
  answer : M → (e : E) → R e → Prop
  next : M → (e : E) → R e → M

variable {D : Discipline E R M}

/-- From mode `m` the program makes only allowed calls, and ends with `Q` of its last mode. -/
def Follows (D : Discipline E R M) : Program E R α → M → (M → α → Prop) → Prop
  | .done a, m, Q => Q m a
  | .call e next, m, Q => D.allowed m e ∧ ∀ r, D.answer m e r → Follows D (next r) (D.next m e r) Q

@[simp] lemma follows_done {a : α} {m : M} {Q : M → α → Prop} :
    Follows D (.done a) m Q ↔ Q m a := Iff.rfl

lemma follows_call {e : E} {next : R e → Program E R α} {m : M} {Q : M → α → Prop} :
    Follows D (.call e next) m Q ↔
      D.allowed m e ∧ ∀ r, D.answer m e r → Follows D (next r) (D.next m e r) Q := Iff.rfl

lemma follows_bind {p : Program E R α} {f : α → Program E R β} {m : M} {Q : M → β → Prop} :
    Follows D (p >>= f) m Q ↔ Follows D p m fun m' a => Follows D (f a) m' Q := by
  induction p generalizing m with
  | done a => rfl
  | call e next ih => simp only [call_bind, follows_call, ih]

lemma follows_run_bind {x : Action ε E R α} {f : α → Action ε E R β} {m : M}
    {Q : M → Except ε β → Prop} :
    Follows D (x >>= f).run m Q ↔
      Follows D x.run m fun m' r => Follows D (following f r) m' Q := by
  rw [run_bind_eq, follows_bind]

lemma Follows.mono {p : Program E R α} {m : M} {Q Q' : M → α → Prop}
    (h : Follows D p m Q) (hQ : ∀ m a, Q m a → Q' m a) : Follows D p m Q' := by
  induction p generalizing m with
  | done a => exact hQ _ _ h
  | call e next ih => exact ⟨h.1, fun r hr => ih r (h.2 r hr)⟩

/-- A part that ends in `B` hands over to a continuation that copes with `B`. -/
lemma Follows.run_bind {x : Action ε E R α} {f : α → Action ε E R β} {m : M}
    {Q : M → Except ε β → Prop} {B : M → Except ε α → Prop} (h : Follows D x.run m B)
    (ok : ∀ m' a, B m' (.ok a) → Follows D (f a).run m' Q)
    (error : ∀ m' e, B m' (.error e) → Q m' (.error e)) : Follows D (x >>= f).run m Q := by
  rw [follows_run_bind]
  refine h.mono fun m' r hr => ?_
  cases r with
  | ok a => exact ok m' a hr
  | error e => exact error m' e hr

lemma Follows.attempt {x : Action ε E R α} {m : M} {Q : M → Except ε (Except ε α) → Prop}
    (h : Follows D x.run m fun m' r => Q m' (.ok r)) :
    Follows D (ProgramTree.attempt x).run m Q := follows_bind.mpr h

/-- Nothing is said of the mode in which an action fails. -/
def OnOk (B : M → α → Prop) (m : M) : Except ε α → Prop
  | .ok a => B m a
  | .error _ => True

lemma Follows.andThen {x : Action ε E R α} {f : α → Action ε E R β} {m : M} {A : M → α → Prop}
    {B : M → β → Prop} (h : Follows D x.run m (OnOk A))
    (hf : ∀ m' a, A m' a → Follows D (f a).run m' (OnOk B)) : Follows D (x >>= f).run m (OnOk B) :=
  h.run_bind hf fun _ _ _ => trivial

/-- A program whose calls all leave the mode alone ends in the mode it started in. -/
lemma Follows.of_calls {p : Program E R α} {m : M}
    (h : Calls (fun e => D.allowed m e ∧ ∀ r, D.next m e r = m) p) :
    Follows D p m fun m' _ => m' = m := by
  induction p with
  | done a => rfl
  | call e next ih => exact ⟨h.1.1, fun r _ => by rw [h.1.2 r]; exact ih r (h.2 r)⟩

/-- A program whose calls may be made where `I` holds of the mode, and keep it. -/
lemma Follows.of_kept {p : Program E R α} {m : M} {I : M → Prop} (start : I m)
    (h : Calls (fun e => ∀ m, I m → D.allowed m e ∧ ∀ r, D.answer m e r → I (D.next m e r)) p) :
    Follows D p m fun m' _ => I m' := by
  induction p generalizing m with
  | done a => exact start
  | call e next ih =>
    obtain ⟨allowed, kept⟩ := h.1 m start
    exact ⟨allowed, fun r hr => ih r (kept r hr) (h.2 r)⟩

/-- What every call leaves true of the mode is true at the end. -/
lemma Follows.keeping {p : Program E R α} {m : M} {Q : M → α → Prop} {I : M → Prop}
    (h : Follows D p m Q) (start : I m) (keep : ∀ m e r, I m → I (D.next m e r)) :
    Follows D p m fun m' a => Q m' a ∧ I m' := by
  induction p generalizing m with
  | done a => exact ⟨h, start⟩
  | call e next ih => exact ⟨h.1, fun r hr => ih r (h.2 r hr) (keep m e r start)⟩

/-- Two disciplines at once. -/
def Discipline.both {N : Type} (D : Discipline E R M) (D' : Discipline E R N) :
    Discipline E R (M × N) where
  rest := (D.rest, D'.rest)
  allowed := fun m e => D.allowed m.1 e ∧ D'.allowed m.2 e
  answer := fun m e r => D.answer m.1 e r ∧ D'.answer m.2 e r
  next := fun m e r => (D.next m.1 e r, D'.next m.2 e r)

lemma Follows.both {N : Type} {D' : Discipline E R N} {p : Program E R α} {m : M} {n : N}
    {Q : M → α → Prop} {Q' : N → α → Prop} (h : Follows D p m Q) (h' : Follows D' p n Q') :
    Follows (D.both D') p (m, n) fun x a => Q x.1 a ∧ Q' x.2 a := by
  induction p generalizing m n with
  | done a => exact ⟨h, h'⟩
  | call e next ih => exact ⟨⟨h.1, h'.1⟩, fun r hr => ih r (h.2 r hr.1) (h'.2 r hr.2)⟩

/-- Where each call has an answer that can come, some end is reached. -/
lemma Follows.exists_end {p : Program E R α} {m : M} {Q : M → α → Prop} (h : Follows D p m Q)
    (live : ∀ m e, ∃ r, D.answer m e r) : ∃ m' a, Q m' a := by
  induction p generalizing m with
  | done a => exact ⟨m, a, h⟩
  | call e next ih =>
    obtain ⟨r, hr⟩ := live m e
    exact ih r (h.2 r hr)

/-- A part of the mode that no call moves is at the start what it is at the end. -/
lemma Follows.tag_eq {τ : Type} (tag : M → τ) {t : τ} {p : Program E R α} {m : M}
    (h : Follows D p m fun m' _ => tag m' = t) (kept : ∀ m e r, tag (D.next m e r) = tag m)
    (live : ∀ m e, ∃ r, D.answer m e r) : tag m = t := by
  obtain ⟨m', -, hend, hstart⟩ := (h.keeping (I := fun m' => tag m' = tag m) rfl fun m' e r hm =>
    (kept m' e r).trans hm).exists_end live
  exact hstart.symm.trans hend

/-- A loop whose body keeps `I`, well or badly ended, keeps `I`. -/
lemma Follows.forM {f : α → Action ε E R PUnit} {xs : List α} {m : M} {I : M → Prop} (start : I m)
    (keep : ∀ x ∈ xs, ∀ m, I m → Follows D (f x).run m fun m' _ => I m') :
    Follows D (xs.forM f).run m fun m' _ => I m' := by
  induction xs generalizing m with
  | nil => exact start
  | cons x xs ih =>
    exact Follows.run_bind (x := f x) (f := fun _ => xs.forM f) (keep x (by simp) m start)
      (fun m' _ h => ih h fun y hy => keep y (by simp [hy])) fun _ _ h => h

/-- Every task of the pool is on a path that the discipline allows. -/
structure Obeys (D : Discipline E R M) (Q : T → M → α → Prop) (μ : ℕ → M) (s : Pool W T E R α) :
    Prop where
  follows : ∀ i t p, s.tasks[i]? = some (t, p) → Follows D p (μ i) (Q t)
  resting : ∀ i, s.tasks.length ≤ i → μ i = D.rest

variable {Q : T → M → α → Prop} {μ : ℕ → M} {i : ℕ} {t : T} {e : E}
  {next : R e → Program E R α}

lemma Obeys.nil {w : W} : Obeys D Q (fun _ => D.rest) (⟨w, []⟩ : Pool W T E R α) where
  follows := by
    intro i t p h
    simp at h
  resting := fun _ _ => rfl

/-- A pool of one task. -/
lemma Obeys.single {w : W} {p : Program E R α} {m : M} (h : Follows D p m (Q t)) :
    Obeys D Q (Function.update (fun _ => D.rest) 0 m) (⟨w, [(t, p)]⟩ : Pool W T E R α) where
  follows := by
    intro i u q hq
    obtain ⟨rfl, rfl, rfl⟩ : i = 0 ∧ t = u ∧ p = q := by
      simpa [List.getElem?_singleton] using hq
    rwa [Function.update_self]
  resting := by
    intro i hi
    rw [Function.update_of_ne]
    rintro rfl
    simp at hi

lemma Obeys.allowed (h : Obeys D Q μ s) (ht : s.tasks[i]? = some (t, .call e next)) :
    D.allowed (μ i) e := (h.follows i t _ ht).1

lemma Obeys.ended {a : α} (h : Obeys D Q μ s) (ht : s.tasks[i]? = some (t, .done a)) :
    Q t (μ i) a := h.follows i t _ ht

/-- The discipline does not look at the shared state. -/
lemma Obeys.world (h : Obeys D Q μ s) (w : W) : Obeys D Q μ { s with world := w } :=
  ⟨h.follows, h.resting⟩

/-- The tasks that did not move keep their modes; the one that moved takes its next mode. -/
theorem Obeys.call (h : Obeys D Q μ s) (ht : s.tasks[i]? = some (t, .call e next)) {r : R e} {w' : W}
    (hr : D.answer (μ i) e r) :
    Obeys D Q (Function.update μ i (D.next (μ i) e r))
      (⟨w', s.tasks.set i (t, next r)⟩ : Pool W T E R α) := by
  have hi : i < s.tasks.length := (List.getElem?_eq_some_iff.mp ht).1
  constructor
  · intro j u p hj
    by_cases hij : i = j
    · subst j
      rw [List.getElem?_set_self hi, Option.some.injEq, Prod.mk.injEq] at hj
      obtain ⟨rfl, rfl⟩ := hj
      rw [Function.update_self]
      exact (h.follows i t _ ht).2 r hr
    · rw [List.getElem?_set_ne hij] at hj
      rw [Function.update_of_ne (Ne.symm hij)]
      exact h.follows j u p hj
  · intro j hj
    rw [List.length_set] at hj
    rw [Function.update_of_ne (by omega)]
    exact h.resting j hj

theorem Obeys.spawn (h : Obeys D Q μ s) {p : Program E R α} {m : M} (hp : Follows D p m (Q t)) :
    Obeys D Q (Function.update μ s.tasks.length m) (s.spawn t p) := by
  constructor
  · intro j u q hj
    rcases Nat.lt_trichotomy j s.tasks.length with hlt | rfl | hgt
    · rw [Function.update_of_ne hlt.ne]
      exact h.follows j u q (by simpa [Pool.spawn, List.getElem?_append_left hlt] using hj)
    · simp only [Pool.spawn, List.getElem?_concat_length, Option.some.injEq, Prod.mk.injEq] at hj
      obtain ⟨rfl, rfl⟩ := hj
      rwa [Function.update_self]
    · have hlen : (s.tasks ++ [(t, p)]).length ≤ j := by simpa using hgt
      simp [Pool.spawn, List.getElem?_eq_none hlen] at hj
  · intro j hj
    have hlen : s.tasks.length + 1 ≤ j := by simpa [Pool.spawn] using hj
    rw [Function.update_of_ne (by omega)]
    exact h.resting j (by omega)

/-- The tasks of a pool all follow the discipline and `J` holds of the state and their modes. -/
def Keeps (D : Discipline E R M) (Q : T → M → α → Prop) (J : W → (ℕ → M) → Prop)
    (s : Pool W T E R α) : Prop := ∃ μ, Obeys D Q μ s ∧ J s.world μ

variable {J : W → (ℕ → M) → Prop}

/-- It is enough to check `J` for the one call that a step makes. -/
theorem Keeps.stepTask {o : O} (h : Keeps D Q J s) (hs : s.stepTask exec i o = some s')
    (check : ∀ (μ : ℕ → M) (t : T) (e : E) (next : R e → Program E R α) (r : R e) (w' : W),
      s.tasks[i]? = some (t, .call e next) → J s.world μ → D.allowed (μ i) e →
      exec o e s.world = some (r, w') →
      D.answer (μ i) e r ∧ J w' (Function.update μ i (D.next (μ i) e r))) :
    Keeps D Q J s' := by
  obtain ⟨μ, hob, hJ⟩ := h
  obtain ⟨t, e, next, r, w', ht, hx, rfl⟩ := Pool.stepTask_cases hs
  obtain ⟨hr, hJ'⟩ := check μ t e next r w' ht hJ (hob.allowed ht) hx
  exact ⟨_, hob.call ht hr, hJ'⟩

section Counting
variable {ι : Type} [DecidableEq ι] {p : M → Prop} {m : M} {i : ι}

/-- How many tasks are in a mode of some kind, when one of them takes another mode. -/
lemma encard_update [DecidablePred p] (μ : ι → M) (i : ι) (m : M) :
    {j | p (Function.update μ i m j)}.encard + (if p (μ i) then 1 else 0) =
      {j | p (μ j)}.encard + if p m then 1 else 0 := by
  have split : ∀ ν : ι → M, (∀ j ≠ i, ν j = μ j) →
      {j | p (ν j)}.encard = {j | j ≠ i ∧ p (μ j)}.encard + if p (ν i) then 1 else 0 := by
    intro ν hν
    by_cases hi : p (ν i)
    · rw [if_pos hi, ← Set.encard_insert_of_notMem (a := i) (by simp)]
      congr 1
      ext j
      by_cases hj : j = i
      · simp [hj, hi]
      · simp [hj, hν j hj]
    · rw [if_neg hi, add_zero]
      congr 1
      ext j
      by_cases hj : j = i
      · simp [hj, hi]
      · simp [hj, hν j hj]
  rw [split μ fun _ _ => rfl, split _ fun j hj => Function.update_of_ne hj m μ, Function.update_self,
    add_right_comm]

lemma encard_same (ν : ι → M) (h : p m ↔ p (ν i)) :
    {k | p (Function.update ν i m k)}.encard = {k | p (ν k)}.encard := by
  congr 1
  ext j
  by_cases hj : j = i
  · simpa [hj] using h
  · simp [Function.update_of_ne hj]

lemma encard_le (ν : ι → M) (h : p m → p (ν i)) :
    {k | p (Function.update ν i m k)}.encard ≤ {k | p (ν k)}.encard := by
  refine Set.encard_le_encard fun k hk => ?_
  by_cases hki : k = i
  · subst hki
    exact h (by simpa using hk)
  · simpa [Function.update_of_ne hki] using hk

lemma encard_le_succ (ν : ι → M) :
    {k | p (Function.update ν i m k)}.encard ≤ {k | p (ν k)}.encard + 1 := by
  classical
  calc {k | p (Function.update ν i m k)}.encard
      ≤ {k | p (Function.update ν i m k)}.encard + if p (ν i) then 1 else 0 := le_self_add
    _ = {k | p (ν k)}.encard + if p m then 1 else 0 := encard_update ν i m
    _ ≤ {k | p (ν k)}.encard + 1 := by gcongr; split <;> simp

lemma encard_new (ν : ι → M) (h : ¬p (ν i)) (hm : p m) :
    {k | p (Function.update ν i m k)}.encard = {k | p (ν k)}.encard + 1 := by
  classical
  simpa [h, hm] using encard_update (p := p) ν i m

lemma encard_drop (ν : ι → M) (h : p (ν i)) (hm : ¬p m) :
    {k | p (Function.update ν i m k)}.encard + 1 = {k | p (ν k)}.encard := by
  classical
  simpa [h, hm] using encard_update (p := p) ν i m

end Counting

/-- If what is waited for is held, every holder waits, and nobody waits for what does not rank above
all that he holds, then nobody waits. -/
theorem no_wait {ι ρ : Type} (rank : ρ → ℕ) {top : ℕ} (bounded : ∀ r, rank r ≤ top)
    {holds waits : ι → ρ → Prop} (held : ∀ i r, waits i r → ∃ j, holds j r)
    (stuck : ∀ j r, holds j r → ∃ r', waits j r')
    (up : ∀ j r r', holds j r → waits j r' → rank r < rank r') (i : ι) (r : ρ) : ¬waits i r := by
  induction hn : top - rank r using Nat.strong_induction_on generalizing i r with
  | _ n ih =>
    intro hw
    obtain ⟨j, hj⟩ := held i r hw
    obtain ⟨r', hw'⟩ := stuck j r hj
    have higher := up j r r' hj hw'
    have := bounded r'
    exact ih (top - rank r') (by omega) j r' rfl hw'

end Autopeer.ProgramPool
