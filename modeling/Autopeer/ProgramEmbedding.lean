import Autopeer.ProgramPool

/-! Programs of one system inside a larger one. The larger system has the calls of the smaller one
among its own. What a program follows there it follows here, and a pool whose tasks each hand over to
at most one program of the smaller system takes the steps of a pool of these programs. -/
namespace Autopeer.ProgramEmbedding
open ProgramTree ProgramPool

variable {E E' : Type} {R : E → Type} {R' : E' → Type} {M M' α β ε : Type}

/-- The calls of one system among those of another, and how their answers read. -/
structure Embedding (E : Type) (R : E → Type) (E' : Type) (R' : E' → Type) where
  call : E → E'
  answer : (e : E) → R' (call e) → R e

def embed (i : Embedding E R E' R') : Program E R α → Program E' R' α
  | .done a => .done a
  | .call e next => .call (i.call e) fun r => embed i (next (i.answer e r))

variable {i : Embedding E R E' R'}

@[simp] lemma embed_done (a : α) : embed i (.done a : Program E R α) = .done a := rfl

@[simp] lemma embed_call (e : E) (next : R e → Program E R α) :
    embed i (.call e next) = .call (i.call e) fun r => embed i (next (i.answer e r)) := rfl

lemma embed_bind (p : Program E R α) (f : α → Program E R β) :
    embed i (p >>= f) = embed i p >>= fun a => embed i (f a) := by
  induction p with
  | done a => rfl
  | call e next ih => exact congrArg (Program.call (i.call e)) (funext fun r => ih (i.answer e r))

/-- An action of the smaller system. -/
def embedded (i : Embedding E R E' R') (x : Action ε E R α) : Action ε E' R' α :=
  ExceptT.mk (embed i x.run)

@[simp] lemma embedded_run (x : Action ε E R α) : (embedded i x).run = embed i x.run := rfl

lemma embedded_bind_run (x : Action ε E R α) (f : α → Action ε E' R' β) :
    (embedded i x >>= f).run = embed i x.run >>= following f := run_bind_eq _ _

/-- An action that makes no call. -/
def settled (r : Except ε α) : Action ε E R α := ExceptT.mk (.done r)

lemma settled_bind_run (r : Except ε α) (f : α → Action ε E R β) :
    (settled r >>= f).run = following f r := run_bind_eq _ _

lemma Calls.embed {P : E' → Prop} {p : Program E R α} (h : Calls (fun e => P (i.call e)) p) :
    Calls P (ProgramEmbedding.embed i p) := by
  induction p with
  | done a => trivial
  | call e next ih => exact ⟨h.1, fun r => ih _ (h.2 _)⟩

/-- A discipline of the larger system that treats the calls of the smaller one as a discipline of the
smaller one does, seen through `view`; `I` is what those calls leave alone. -/
structure Restricts (D : Discipline E R M) (D' : Discipline E' R' M') (i : Embedding E R E' R')
    (view : M' → M) (I : M' → Prop) : Prop where
  allowed : ∀ m e, I m → D.allowed (view m) e → D'.allowed m (i.call e)
  answer : ∀ m e r, I m → D'.answer m (i.call e) r → D.answer (view m) e (i.answer e r)
  next : ∀ m e r, I m → view (D'.next m (i.call e) r) = D.next (view m) e (i.answer e r)
  kept : ∀ m e r, I m → I (D'.next m (i.call e) r)

lemma Follows.embed {D : Discipline E R M} {D' : Discipline E' R' M'} {view : M' → M}
    {I : M' → Prop} (h : Restricts D D' i view I) {p : Program E R α} {m : M'} {Q : M → α → Prop}
    (start : I m) (hp : Follows D p (view m) Q) :
    Follows D' (ProgramEmbedding.embed i p) m fun m' a => I m' ∧ Q (view m') a := by
  induction p generalizing m with
  | done a => exact ⟨start, hp⟩
  | call e next ih =>
    refine ⟨h.allowed m e start hp.1, fun r hr => ih _ (h.kept m e r start) ?_⟩
    rw [h.next m e r start]
    exact hp.2 _ (h.answer m e r start hr)

section Delegation
variable {O O' W W' T T' : Type} {i : Embedding E R E' R'}

/-- A program that has yet to hand over to one of the smaller system and to return a function of its
result, as `starts` says; until then its calls are none of the smaller system, and `alone` holds of
what it returns without it. -/
inductive Before (i : Embedding E R E' R') (starts : Program E R α → (α → β) → Prop)
    (alone : β → Prop) : Program E' R' β → Prop
  | done (b : β) (ends : alone b) : Before i starts alone (.done b)
  | handed {p : Program E' R' β} {q : Program E R α} {f : α → β} (begins : starts q f)
      (eq : p = embed i q >>= fun a => .done (f a)) : Before i starts alone p
  | outside {e' : E'} {next : R' e' → Program E' R' β} (none : ∀ e, i.call e ≠ e')
      (later : ∀ r, Before i starts alone (next r)) : Before i starts alone (.call e' next)

section Course
variable {starts : Program E R α → (α → β) → Prop} {alone : β → Prop} {p : Program E' R' β}

/-- Calls that are none of the smaller system leave what follows to come. -/
lemma before_bind {γ : Type} {p : Program E' R' γ} {k : γ → Program E' R' β}
    (outside : Calls (fun e' => ∀ e, i.call e ≠ e') p) (h : ∀ c, Before i starts alone (k c)) :
    Before i starts alone (p >>= k) := by
  induction p with
  | done c => exact h c
  | call e' next ih => exact .outside outside.1 fun r => ih r (outside.2 r)

lemma Before.mono {alone' : β → Prop} (h : Before i starts alone p) (ha : ∀ b, alone b → alone' b) :
    Before i starts alone' p := by
  induction h with
  | done b ends => exact .done b (ha b ends)
  | handed begins eq => exact .handed begins eq
  | outside none _ ih => exact .outside none ih

/-- A call of a program that was handed over is the next call of that program. -/
lemma embed_call_eq {q : Program E R α} {f : α → β} {e' : E'} {next : R' e' → Program E' R' β}
    (h : .call e' next = embed i q >>= fun a => .done (f a)) :
    ∃ e, ∃ n : R e → Program E R α, ∃ he : i.call e = e', q = .call e n ∧
      ∀ r, next (he ▸ r) = embed i (n (i.answer e r)) >>= fun a => .done (f a) := by
  cases q with
  | done a => cases h
  | call e n =>
    rw [embed_call, call_bind] at h
    cases h
    exact ⟨e, n, rfl, rfl, fun _ => rfl⟩

/-- The program goes on with what is left of one that it handed over to. -/
def HandedOver (i : Embedding E R E' R') (starts : Program E R α → (α → β) → Prop)
    (p : Program E' R' β) : Prop :=
  ∃ q₀ q, ∃ f : α → β, starts q₀ f ∧ Remains q₀ q ∧ p = embed i q >>= fun a => .done (f a)

lemma HandedOver.next {e' : E'} {next : R' e' → Program E' R' β}
    (h : HandedOver i starts (.call e' next)) (r : R' e') : HandedOver i starts (next r) := by
  obtain ⟨q₀, q, f, begins, left, hp⟩ := h
  obtain ⟨e, n, rfl, rfl, hnext⟩ := embed_call_eq hp
  exact ⟨q₀, _, f, begins, left.answered _, hnext r⟩

/-- After it has handed over, a program makes the calls of the smaller system alone. -/
lemma HandedOver.inside {e' : E'} {next : R' e' → Program E' R' β}
    (h : HandedOver i starts (.call e' next)) : ∃ e, i.call e = e' := by
  obtain ⟨q₀, q, f, -, -, hp⟩ := h
  obtain ⟨e, n, he, -⟩ := embed_call_eq hp
  exact ⟨e, he⟩

/-- The program has yet to hand over, or it has. -/
def Course (i : Embedding E R E' R') (starts : Program E R α → (α → β) → Prop) (alone : β → Prop)
    (p : Program E' R' β) : Prop := Before i starts alone p ∨ HandedOver i starts p

lemma Before.handedOver {q : Program E R α} {f : α → β} (begins : starts q f)
    (eq : p = embed i q >>= fun a => .done (f a)) : HandedOver i starts p :=
  ⟨q, q, f, begins, .start, eq⟩

lemma Course.next {e' : E'} {next : R' e' → Program E' R' β}
    (h : Course i starts alone (.call e' next)) (r : R' e') : Course i starts alone (next r) := by
  rcases h with h | h
  · cases h with
    | handed begins eq => exact .inr ((Before.handedOver begins eq).next r)
    | outside none later => exact .inl (later r)
  · exact .inr (h.next r)

/-- A program that makes a call of the smaller system has handed over. -/
lemma Course.of_call {e : E} {next : R' (i.call e) → Program E' R' β}
    (h : Course i starts alone (.call (i.call e) next)) : HandedOver i starts (.call (i.call e) next) := by
  rcases h with h | h
  · cases h with
    | handed begins eq => exact Before.handedOver begins eq
    | outside none later => exact absurd rfl (none e)
  · exact h

/-- So has one that returns what it cannot return alone. -/
lemma Course.of_done {b : β} (h : Course i starts alone (.done b)) (hb : ¬alone b) :
    HandedOver i starts (.done b) := by
  rcases h with h | h
  · cases h with
    | done b ends => exact absurd ends hb
    | handed begins eq => exact Before.handedOver begins eq
  · exact h

end Course

/-- The calls of the smaller system do to the part of the state it sees what they do alone, and the
others leave that part as it is. -/
structure Extends (i : Embedding E R E' R') (view : W' → W)
    (exec : O → (e : E) → W → Option (R e × W))
    (exec' : O' → (e : E') → W' → Option (R' e × W')) : Prop where
  inside : ∀ {o' e w' r u'}, exec' o' (i.call e) w' = some (r, u') →
    ∃ o, exec o e (view w') = some (i.answer e r, view u')
  outside : ∀ {o' e' w' r u'}, (∀ e, i.call e ≠ e') → exec' o' e' w' = some (r, u') →
    view u' = view w'

/-- `place` gives each task that has handed over its program in the smaller pool, which has no
others; `starts` says what a task may hand over to. -/
structure Delegates (i : Embedding E R E' R') (view : W' → W)
    (starts : T' → T → Program E R α → (α → β) → Prop) (s : Pool W' T' E' R' β) (m : Pool W T E R α)
    (place : ℕ → Option ℕ) : Prop where
  world : m.world = view s.world
  placed : ∀ k j, place k = some j → ∃ t' t q, ∃ f : α → β,
    s.tasks[k]? = some (t', embed i q >>= fun a => .done (f a)) ∧ m.tasks[j]? = some (t, q) ∧
      ∃ q₀, starts t' t q₀ f
  single : ∀ k k' j, place k = some j → place k' = some j → k = k'
  onto : ∀ j < m.tasks.length, ∃ k, place k = some j
  unplaced : ∀ k t' p, s.tasks[k]? = some (t', p) → place k = none →
    Before i (fun q f => ∃ t, starts t' t q f) (fun _ => True) p

variable {view : W' → W} {exec : O → (e : E) → W → Option (R e × W)}
  {exec' : O' → (e : E') → W' → Option (R' e × W')} {starts : T' → T → Program E R α → (α → β) → Prop}
  {s s' : Pool W' T' E' R' β} {m : Pool W T E R α} {place : ℕ → Option ℕ}

/-- A call of a task that has handed over is the next call of its program. -/
lemma Delegates.stepPlaced (ext : Extends i view exec exec') (h : Delegates i view starts s m place)
    {k j : ℕ} {o' : O'} (hs : s.stepTask exec' k o' = some s') (hk : place k = some j) :
    ∃ o m', m.stepTask exec j o = some m' ∧ Delegates i view starts s' m' place := by
  obtain ⟨t', e', next, r, w', ht, hx, rfl⟩ := Pool.stepTask_cases hs
  obtain ⟨u', t, q, f, htask, hm, q₀, hq₀⟩ := h.placed k j hk
  rw [ht, Option.some.injEq, Prod.mk.injEq] at htask
  obtain ⟨rfl, hp⟩ := htask
  obtain ⟨e, n, rfl, rfl, hnext⟩ := embed_call_eq hp
  obtain ⟨o, ho⟩ := ext.inside hx
  have hlt : k < s.tasks.length := (List.getElem?_eq_some_iff.mp ht).1
  have hlt' : j < m.tasks.length := (List.getElem?_eq_some_iff.mp hm).1
  refine ⟨o, ⟨view w', m.tasks.set j (t, n (i.answer e r))⟩, ?_, ?_⟩
  · rw [Pool.stepTask, hm]
    simp only [h.world, ho, Option.map_some]
  · refine ⟨rfl, fun k' j' hk' => ?_, h.single, ?_, fun k' t'' p hk' hnone => ?_⟩
    · by_cases hkk : k = k'
      · subst hkk
        obtain rfl : j = j' := Option.some.inj (hk.symm.trans hk')
        exact ⟨t', t, _, f, by rw [List.getElem?_set_self hlt, ← hnext r],
          List.getElem?_set_self hlt', q₀, hq₀⟩
      · have hjj : j ≠ j' := fun hj => hkk (h.single k k' j hk (hj ▸ hk'))
        obtain ⟨u', u, q', f', hs', hm', started⟩ := h.placed k' j' hk'
        exact ⟨u', u, q', f', by rwa [List.getElem?_set_ne hkk], by rwa [List.getElem?_set_ne hjj],
          started⟩
    · simpa using h.onto
    · rw [List.getElem?_set_ne (by rintro rfl; simp [hk] at hnone)] at hk'
      exact h.unplaced k' t'' p hk' hnone

/-- A task that has not handed over stays so, where its call is none of the smaller system. -/
lemma Delegates.stepOutside (ext : Extends i view exec exec') (h : Delegates i view starts s m place)
    {k : ℕ} {t' : T'} {e' : E'} {next : R' e' → Program E' R' β} {o' : O'} {r : R' e'} {w' : W'}
    (ht : s.tasks[k]? = some (t', .call e' next)) (hx : exec' o' e' s.world = some (r, w'))
    (hk : place k = none) (outside : ∀ e, i.call e ≠ e')
    (hp : Before i (fun q f => ∃ t, starts t' t q f) (fun _ => True) (next r)) :
    Delegates i view starts ⟨w', s.tasks.set k (t', next r)⟩ m place := by
  have hlt : k < s.tasks.length := (List.getElem?_eq_some_iff.mp ht).1
  refine ⟨h.world.trans (ext.outside outside hx).symm, fun k' j' hk' => ?_, h.single, h.onto,
    fun k' t'' p hk' hnone => ?_⟩
  · have hkk : k ≠ k' := by
      rintro rfl
      simp [hk] at hk'
    obtain ⟨u', u, q, f, hs', hm', started⟩ := h.placed k' j' hk'
    exact ⟨u', u, q, f, by rwa [List.getElem?_set_ne hkk], hm', started⟩
  · by_cases hkk : k = k'
    · subst hkk
      rw [List.getElem?_set_self hlt, Option.some.injEq, Prod.mk.injEq] at hk'
      obtain ⟨rfl, rfl⟩ := hk'
      exact hp
    · rw [List.getElem?_set_ne hkk] at hk'
      exact h.unplaced k' t'' p hk' hnone

/-- A task hands over: its program starts in the smaller pool. -/
lemma Delegates.start (h : Delegates i view starts s m place) {k : ℕ} {u : T'} {t : T}
    {q : Program E R α} {f : α → β}
    (ht : s.tasks[k]? = some (u, embed i q >>= fun a => .done (f a))) (hk : place k = none)
    (hq : starts u t q f) :
    Delegates i view starts s (m.spawn t q) (Function.update place k (some m.tasks.length)) := by
  have older : ∀ {k' j'}, place k' = some j' → j' < m.tasks.length := fun {k' j'} hk' => by
    obtain ⟨_, _, _, _, -, hm, -⟩ := h.placed k' j' hk'
    exact (List.getElem?_eq_some_iff.mp hm).1
  refine ⟨h.world, fun k' j' hk' => ?_, fun a b j ha hb => ?_, fun j hj => ?_,
    fun k' t'' p hk' hnone => ?_⟩
  · by_cases hkk : k' = k
    · subst hkk
      rw [Function.update_self, Option.some.injEq] at hk'
      subst hk'
      exact ⟨u, t, q, f, ht, List.getElem?_concat_length, q, hq⟩
    · rw [Function.update_of_ne hkk] at hk'
      obtain ⟨u', t', q', f', hs', hm', started⟩ := h.placed k' j' hk'
      exact ⟨u', t', q', f', hs', by rwa [Pool.spawn, List.getElem?_append_left (older hk')], started⟩
  · by_cases hak : a = k <;> by_cases hbk : b = k
    · rw [hak, hbk]
    · subst hak
      rw [Function.update_self, Option.some.injEq] at ha
      rw [Function.update_of_ne hbk] at hb
      exact absurd (older hb) (by omega)
    · subst hbk
      rw [Function.update_self, Option.some.injEq] at hb
      rw [Function.update_of_ne hak] at ha
      exact absurd (older ha) (by omega)
    · rw [Function.update_of_ne hak] at ha
      rw [Function.update_of_ne hbk] at hb
      exact h.single a b j ha hb
  · rcases Nat.lt_or_ge j m.tasks.length with hlt | hge
    · obtain ⟨k', hk'⟩ := h.onto j hlt
      refine ⟨k', ?_⟩
      rwa [Function.update_of_ne]
      rintro rfl
      simp [hk] at hk'
    · have hlen : j < m.tasks.length + 1 := by simpa [Pool.spawn] using hj
      refine ⟨k, ?_⟩
      rw [Function.update_self, show j = m.tasks.length by omega]
  · refine h.unplaced k' t'' p hk' ?_
    rwa [Function.update_of_ne] at hnone
    rintro rfl
    simp at hnone

/-- A new task has not handed over. -/
lemma Delegates.spawn (h : Delegates i view starts s m place) {t' : T'} {p : Program E' R' β}
    (hp : Before i (fun q f => ∃ t, starts t' t q f) (fun _ => True) p) :
    Delegates i view starts (s.spawn t' p) m place := by
  refine ⟨h.world, fun k j hk => ?_, h.single, h.onto, fun k u q hk hnone => ?_⟩
  · obtain ⟨u', u, q, f, hs, hm, started⟩ := h.placed k j hk
    exact ⟨u', u, q, f, by
      rwa [Pool.spawn, List.getElem?_append_left (List.getElem?_eq_some_iff.mp hs).1], hm, started⟩
  · rcases Nat.lt_trichotomy k s.tasks.length with hlt | rfl | hgt
    · rw [Pool.spawn, List.getElem?_append_left hlt] at hk
      exact h.unplaced k u q hk hnone
    · rw [Pool.spawn, List.getElem?_concat_length, Option.some.injEq, Prod.mk.injEq] at hk
      obtain ⟨rfl, rfl⟩ := hk
      exact hp
    · have hlen : (s.tasks ++ [(t', p)]).length ≤ k := by simpa using hgt
      simp [Pool.spawn, List.getElem?_eq_none hlen] at hk

/-- A task beyond the last one has no place. -/
lemma Delegates.place_length (h : Delegates i view starts s m place) {k : ℕ}
    (hk : s.tasks.length ≤ k) : place k = none := by
  by_contra hne
  obtain ⟨j, hj⟩ := Option.ne_none_iff_exists'.mp hne
  obtain ⟨_, _, _, _, hs, -, -⟩ := h.placed k j hj
  exact absurd (List.getElem?_eq_some_iff.mp hs).1 (by omega)

/-- A step of one task is no step of the smaller pool, a step of the program handed over, or the start
of that program with its first step. -/
theorem Delegates.stepTask (ext : Extends i view exec exec') (h : Delegates i view starts s m place)
    {k : ℕ} {o' : O'} (hs : s.stepTask exec' k o' = some s') :
    (Delegates i view starts s' m place) ∨
    (∃ j o m', m.stepTask exec j o = some m' ∧ Delegates i view starts s' m' place) ∨
    ∃ t' p t q f j o m' place', s.tasks[k]? = some (t', p) ∧
      p = (embed i q >>= fun a => .done (f a)) ∧ place k = none ∧ starts t' t q f ∧
      (m.spawn t q).stepTask exec j o = some m' ∧ Delegates i view starts s' m' place' ∧
        ∀ k', place' k' = none → place k' = none := by
  cases hk : place k with
  | some j =>
    obtain ⟨o, m', hm', hd⟩ := h.stepPlaced ext hs hk
    exact .inr (.inl ⟨j, o, m', hm', hd⟩)
  | none =>
    obtain ⟨t', e', next, r, w', ht, hx, rfl⟩ := Pool.stepTask_cases hs
    cases h.unplaced k t' _ ht hk with
    | @handed _ q f hstart hp =>
      obtain ⟨t, hq⟩ := hstart
      have started := h.start (hp ▸ ht) hk hq
      obtain ⟨o, m', hm', hd⟩ := started.stepPlaced ext hs (Function.update_self ..)
      refine .inr (.inr ⟨t', _, t, q, f, _, o, m', _, ht, hp, rfl, hq, hm', hd, fun k' hk' => ?_⟩)
      by_cases hkk : k' = k
      · rwa [hkk]
      · rwa [Function.update_of_ne hkk] at hk'
    | outside none later => exact .inl (h.stepOutside ext ht hx hk none (later r))

end Delegation

end Autopeer.ProgramEmbedding
