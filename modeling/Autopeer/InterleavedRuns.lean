import Autopeer.ProgramRuns

/-! One program amid others. Before, between and after its calls the others move the state by any
number of their own steps; what the program itself called is kept in order. -/
namespace Autopeer.InterleavedRuns
open ProgramTree ProgramRuns

variable {E : Type} {R : E → Type} {O W α β ε : Type}

/-- A call with the outcome it met and the answer it got. -/
structure Answered (E : Type) (R : E → Type) (O : Type) where
  call : E
  outcome : O
  answer : R call

/-- From `w` with `p` to do, the program has made the calls `log` and is at `v` with `q` to do. -/
inductive Amid (own : O → (e : E) → W → R e → W → Prop) (others : W → W → Prop) (w : W)
    (p : Program E R α) : List (Answered E R O) → W → Program E R α → Prop
  | start : Amid own others w p [] w p
  | call {log : List (Answered E R O)} {v u : W} {e : E} {next : R e → Program E R α} (o : O)
      (r : R e) (prior : Amid own others w p log v (.call e next)) (answer : own o e v r u) :
      Amid own others w p (log ++ [⟨e, o, r⟩]) u (next r)
  | other {log : List (Answered E R O)} {v u : W} {q : Program E R α}
      (prior : Amid own others w p log v q) (moved : others v u) : Amid own others w p log u q

variable {own : O → (e : E) → W → R e → W → Prop} {others : W → W → Prop} {w v u : W}
  {log log' : List (Answered E R O)} {p q : Program E R α}

/-- What the program's calls and the others' steps do to the state, the run does as a whole. -/
theorem Amid.rel {C : E → Prop} {I : W → W → Prop} (h : Amid own others w p log v q)
    (hp : Calls C p) (refl : I w w) (trans : ∀ x y, I w x → I x y → I w y)
    (call : ∀ o e x r y, C e → own o e x r y → I x y) (other : ∀ x y, others x y → I x y) :
    I w v ∧ Calls C q := by
  induction h with
  | start => exact ⟨refl, hp⟩
  | call o r _ answer ih => exact ⟨trans _ _ ih.1 (call o _ _ r _ ih.2.1 answer), ih.2.2 r⟩
  | other _ moved ih => exact ⟨trans _ _ ih.1 (other _ _ moved), ih.2⟩

/-- A sequence is still in its first part, or that part has ended and the second has begun. -/
theorem Amid.of_bind {f : α → Program E R β} {x : Program E R β}
    (h : Amid own others w (p >>= f) log v x) :
    (∃ q, Amid own others w p log v q ∧ x = q >>= f) ∨
      ∃ a u first second, Amid own others w p first u (.done a) ∧
        Amid own others u (f a) second v x ∧ log = first ++ second := by
  generalize hs : p >>= f = s at h
  induction h with
  | start => exact .inl ⟨p, .start, hs.symm⟩
  | @call log v u e next o r prior answer ih =>
    rcases ih with ⟨q, hq, he⟩ | ⟨a, u, first, second, hp, hf, rfl⟩
    · cases q with
      | done a =>
        have begun : Amid own others v (f a) [] v (.call e next) := by
          rw [he, done_bind]
          exact .start
        exact .inr ⟨a, v, log, _, hq, .call o r begun answer, rfl⟩
      | call e next =>
        rw [call_bind] at he
        cases he
        exact .inl ⟨next r, .call o r hq answer, rfl⟩
    · exact .inr ⟨a, u, first, _, hp, .call o r hf answer, by simp⟩
  | other prior moved ih =>
    rcases ih with ⟨q, hq, he⟩ | ⟨a, u, first, second, hp, hf, rfl⟩
    · exact .inl ⟨q, .other hq moved, he⟩
    · exact .inr ⟨a, u, first, second, hp, .other hf moved, rfl⟩

/-- A sequence that has ended did its first part, then its second. -/
theorem Amid.bind_done {f : α → Program E R β} {b : β}
    (h : Amid own others w (p >>= f) log v (.done b)) :
    ∃ a u first second, Amid own others w p first u (.done a) ∧
      Amid own others u (f a) second v (.done b) ∧ log = first ++ second := by
  rcases h.of_bind with ⟨q, hq, he⟩ | found
  · cases q with
    | done a => exact ⟨a, v, log, [], hq, he ▸ .start, by simp⟩
    | call e next => cases he
  · exact found

lemma Amid.run_bind_done {x : Action ε E R α} {f : α → Action ε E R β} {b : Except ε β}
    (h : Amid own others w (x >>= f).run log v (.done b)) :
    ∃ a u first second, Amid own others w x.run first u (.done a) ∧
      Amid own others u (following f a) second v (.done b) ∧ log = first ++ second := by
  rw [run_bind_eq] at h
  exact h.bind_done

lemma Amid.attempt_bind_done {x : Action ε E R α} {f : Except ε α → Action ε E R β}
    {b : Except ε β} (h : Amid own others w (attempt x >>= f).run log v (.done b)) :
    ∃ a u first second, Amid own others w x.run first u (.done a) ∧
      Amid own others u (f a).run second v (.done b) ∧ log = first ++ second := by
  rw [run_bind_eq, attempt_run, bind_assoc] at h
  exact h.bind_done

/-- The first call of a program, if it has been made. -/
lemma Amid.of_call {e : E} {next : R e → Program E R α}
    (trans : ∀ x y, others w x → others x y → others w y) (refl : others w w)
    (h : Amid own others w (.call e next) log v q) :
    (log = [] ∧ q = .call e next ∧ others w v) ∨
      ∃ o r x y rest, others w x ∧ own o e x r y ∧ Amid own others y (next r) rest v q ∧
        log = ⟨e, o, r⟩ :: rest := by
  generalize hs : Program.call e next = s at h
  induction h with
  | start => exact .inl ⟨rfl, rfl, refl⟩
  | @call log v u e' next' o r prior answer ih =>
    rcases ih with ⟨rfl, hq, ho⟩ | ⟨o', r', x, y, rest, ho, hc, hrest, rfl⟩
    · rw [← hs] at hq
      cases hq
      exact .inr ⟨o, r, v, u, [], ho, answer, .start, rfl⟩
    · exact .inr ⟨o', r', x, y, _, ho, hc, .call o r hrest answer, rfl⟩
  | other prior moved ih =>
    rcases ih with ⟨hl, hq, ho⟩ | ⟨o', r', x, y, rest, ho, hc, hrest, hl⟩
    · exact .inl ⟨hl, hq, trans _ _ ho moved⟩
    · exact .inr ⟨o', r', x, y, rest, ho, hc, .other hrest moved, hl⟩

/-- A program that only returns: the others may have moved. -/
lemma Amid.of_done {a : α} (trans : ∀ x y, others w x → others x y → others w y)
    (refl : others w w) (h : Amid own others w (.done a) log v q) :
    log = [] ∧ q = .done a ∧ others w v := by
  generalize hp : Program.done a = s at h
  induction h with
  | start => exact ⟨rfl, rfl, refl⟩
  | call o r prior answer ih =>
    obtain ⟨-, he, -⟩ := ih
    rw [← hp] at he
    cases he
  | other prior moved ih =>
    obtain ⟨hl, hq, ho⟩ := ih
    exact ⟨hl, hq, trans _ _ ho moved⟩

lemma Amid.before {e : E} {next : R e → Program E R α} {o : O} {r : R e}
    (answer : own o e w r u) (h : Amid own others u (next r) log v q) :
    Amid own others w (.call e next) (⟨e, o, r⟩ :: log) v q := by
  induction h with
  | start =>
    have first : Amid own others w (.call e next) ([] ++ [⟨e, o, r⟩]) u (next r) :=
      .call o r .start answer
    exact first
  | call o' r' _ hc ih => exact .call o' r' ih hc
  | other _ moved ih => exact .other ih moved

lemma Amid.after (moved : others w u) (h : Amid own others u p log v q) :
    Amid own others w p log v q := by
  induction h with
  | start => exact .other .start moved
  | call o r _ hc ih => exact .call o r ih hc
  | other _ moved ih => exact .other ih moved

/-- A run on its own is one in which the others never move. -/
theorem Amid.of_ends {exec : O → (e : E) → W → Option (R e × W)} {P : E → O → Prop} {a : α}
    (h : Ends exec P w p a v) :
    ∃ log, Amid (fun o e x r y => exec o e x = some (r, y)) others w p log v (.done a) := by
  induction h with
  | done w a => exact ⟨[], .start⟩
  | call o _ answer _ ih =>
    obtain ⟨log, hrest⟩ := ih
    exact ⟨_, .before answer hrest⟩

end Autopeer.InterleavedRuns
