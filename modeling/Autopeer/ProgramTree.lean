import Mathlib.Tactic

/-! Programs as trees of their calls. A program either has returned or makes one call and
continues with the answer; what the calls do to a shared state is said elsewhere. -/
namespace Autopeer.ProgramTree

inductive Program (E : Type) (R : E → Type) (α : Type) : Type
  | done (a : α)
  | call (e : E) (next : R e → Program E R α)

variable {E : Type} {R : E → Type} {α β ε : Type}

def Program.bind : Program E R α → (α → Program E R β) → Program E R β
  | .done a, f => f a
  | .call e next, f => .call e fun r => (next r).bind f

instance : Monad (Program E R) where
  pure := .done
  bind := Program.bind

@[simp] lemma done_bind (a : α) (f : α → Program E R β) : (Program.done a >>= f) = f a := rfl

@[simp] lemma call_bind (e : E) (next : R e → Program E R α) (f : α → Program E R β) :
    (Program.call e next >>= f) = .call e fun r => next r >>= f := rfl

@[simp] lemma pure_eq_done (a : α) : (pure a : Program E R α) = .done a := rfl

instance : LawfulMonad (Program E R) := LawfulMonad.mk' _
  (fun p => by
    induction p with
    | done a => rfl
    | call e next ih => exact congrArg (Program.call e) (funext ih))
  (fun _ _ => rfl)
  (fun p f g => by
    induction p with
    | done a => rfl
    | call e next ih => exact congrArg (Program.call e) (funext ih))

/-- A program whose result is a value or an error of type `ε`. -/
abbrev Action (ε : Type) (E : Type) (R : E → Type) (α : Type) := ExceptT ε (Program E R) α

/-- Run an action and hand its result, error or not, to what follows. -/
def attempt (x : Action ε E R α) : Action ε E R (Except ε α) :=
  ExceptT.mk (x.run >>= fun r => .done (.ok r))

@[simp] lemma attempt_run (x : Action ε E R α) :
    (attempt x).run = x.run >>= fun r => .done (.ok r) := rfl

/-- How an action continues once its first part has ended. -/
def following (f : α → Action ε E R β) : Except ε α → Program E R (Except ε β)
  | .ok a => (f a).run
  | .error e => .done (.error e)

@[simp] lemma following_ok (f : α → Action ε E R β) (a : α) : following f (.ok a) = (f a).run := rfl

@[simp] lemma following_error (f : α → Action ε E R β) (e : ε) :
    following f (.error e) = .done (.error e) := rfl

lemma run_bind_eq (x : Action ε E R α) (f : α → Action ε E R β) :
    (x >>= f).run = x.run >>= following f := by
  rw [ExceptT.run_bind]
  congr 1
  funext r
  cases r <;> rfl

/-- Every call of the program, on every path, meets `P`. -/
def Calls (P : E → Prop) : Program E R α → Prop
  | .done _ => True
  | .call e next => P e ∧ ∀ r, Calls P (next r)

@[simp] lemma calls_done (P : E → Prop) (a : α) : Calls P (.done a : Program E R α) := trivial

lemma Calls.bind {P : E → Prop} {p : Program E R α} {f : α → Program E R β}
    (hp : Calls P p) (hf : ∀ a, Calls P (f a)) : Calls P (p >>= f) := by
  induction p with
  | done a => exact hf a
  | call e next ih => exact ⟨hp.1, fun r => ih r (hp.2 r)⟩

lemma Calls.mono {P Q : E → Prop} {p : Program E R α} (h : ∀ e, P e → Q e) (hp : Calls P p) :
    Calls Q p := by
  induction p with
  | done a => trivial
  | call e next ih => exact ⟨h e hp.1, fun r => ih r (hp.2 r)⟩

lemma Calls.run_bind {P : E → Prop} {x : Action ε E R α} {f : α → Action ε E R β}
    (hx : Calls P x.run) (hf : ∀ a, Calls P (f a).run) : Calls P (x >>= f).run := by
  rw [run_bind_eq]
  refine hx.bind fun r => ?_
  cases r with
  | ok a => exact hf a
  | error e => trivial

lemma Calls.attempt {P : E → Prop} {x : Action ε E R α} (hx : Calls P x.run) :
    Calls P (ProgramTree.attempt x).run := hx.bind fun _ => trivial

lemma Calls.forM {P : E → Prop} {f : α → Action ε E R PUnit} {xs : List α}
    (h : ∀ x ∈ xs, Calls P (f x).run) : Calls P (xs.forM f).run := by
  induction xs with
  | nil => trivial
  | cons x xs ih =>
    change Calls P (f x >>= fun _ => xs.forM f).run
    exact Calls.run_bind (h x (by simp)) fun _ => ih fun y hy => h y (by simp [hy])

/-- What is left of a program after some of its calls were answered. -/
inductive Remains (p : Program E R α) : Program E R α → Prop
  | start : Remains p p
  | answered {e : E} {next : R e → Program E R α} (h : Remains p (.call e next)) (r : R e) :
      Remains p (next r)

end Autopeer.ProgramTree
