import Autopeer.ManagerEffects
import Autopeer.ProgramRuns

/-! The rules for the functions of the manager, call by call: against a discipline when other tasks
interleave, and as one run that ends well when the function runs alone. -/
namespace Autopeer.ManagerRules
open PeerData ProgramTree ProgramPool ProgramRuns ManagerWorld ManagerPrograms ManagerSystem
open ManagerEffects

variable {M α β : Type} {D : Discipline Call Answer M} {m : M}

lemma follows_return {a : α} {Q : M → Except PeerError α → Prop} (h : Q m (.ok a)) :
    Follows D (return a : Manager α).run m Q := h

lemma follows_throw {error : PeerError} {Q : M → Except PeerError α → Prop}
    (h : Q m (.error error)) : Follows D (throw error : Manager α).run m Q := h

lemma follows_io {c : Io} {Q : M → Except PeerError c.Value → Prop}
    (allowed : D.allowed m (.io c))
    (ended : ∀ r, D.answer m (.io c) r → Q (D.next m (.io c) r) r) :
    Follows D (io c).run m Q := ⟨allowed, ended⟩

lemma follows_io_bind {c : Io} {f : c.Value → Manager α} {Q : M → Except PeerError α → Prop}
    (allowed : D.allowed m (.io c))
    (ok : ∀ v, D.answer m (.io c) (.ok v) → Follows D (f v).run (D.next m (.io c) (.ok v)) Q)
    (error : ∀ e, D.answer m (.io c) (.error e) → Q (D.next m (.io c) (.error e)) (.error e)) :
    Follows D (io c >>= f).run m Q := by
  rw [follows_run_bind]
  refine follows_io allowed fun r hr => ?_
  cases r with
  | ok v => exact ok v hr
  | error e => exact error e hr

lemma follows_attempt_bind {x : Manager α} {f : Except PeerError α → Manager β}
    {Q : M → Except PeerError β → Prop}
    (h : Follows D x.run m fun m' r => Follows D (f r).run m' Q) :
    Follows D (attempt x >>= f).run m Q := by
  rw [follows_run_bind]
  exact Follows.attempt h

/-- A guarded body: the lock is taken before it and released after it, well or badly ended. -/
lemma follows_withLock {l : Lock} {body : Manager α} {Q : M → Except PeerError α → Prop}
    (allowed : D.allowed m (.lock l))
    (inside : D.answer m (.lock l) () → Follows D body.run (D.next m (.lock l) ()) fun m' r =>
      D.allowed m' (.unlock l) ∧
        (D.answer m' (.unlock l) () → Q (D.next m' (.unlock l) ()) r)) :
    Follows D (withLock l body).run m Q :=
  ⟨allowed, fun _ hr => follows_bind.mpr ((inside hr).mono fun _ _ h => ⟨h.1, fun _ => h.2⟩)⟩

lemma follows_answerPeer {request : Manager Peer} {Q : M → Reply → Prop}
    (h : Follows D request.run m fun m' r => Q m' (r.map some)) :
    Follows D (answerPeer request) m Q := follows_bind.mpr h

lemma follows_answerNone {job : Manager Unit} {Q : M → Reply → Prop}
    (h : Follows D job.run m fun m' r => Q m' (r.map fun _ => none)) :
    Follows D (answerNone job) m Q := follows_bind.mpr h

/-- The search for a port: `I` holds until the row is reserved, `B` of the reserved row. -/
lemma follows_reserveFrom {asn : UInt32} {peerName : String} {test : Bool} {peerAt : UInt16 → Peer}
    {increments : List ℕ} {I : M → Prop} {B : M → Peer → Prop} (start : I m)
    (reads : ∀ c, (c = .peerExists asn peerName ∨ ∃ port, c = .listenPortInUse port) → ∀ m, I m →
      D.allowed m (.io c) ∧ ∀ r, D.answer m (.io c) r → I (D.next m (.io c) r))
    (reserves : ∀ port m, I m → D.allowed m (.io (.reservePeer (peerAt port) test)) ∧
      ∀ r, D.answer m (.io (.reservePeer (peerAt port) test)) r →
        (r = .ok true → B (D.next m (.io (.reservePeer (peerAt port) test)) r) (peerAt port)) ∧
        (r ≠ .ok true → I (D.next m (.io (.reservePeer (peerAt port) test)) r))) :
    Follows D (reserveFrom asn peerName test peerAt increments).run m fun m' result =>
      (∀ peer, result = .ok peer → B m' peer) ∧ ∀ error, result = .error error → I m' := by
  induction increments generalizing m with
  | nil => exact follows_throw ⟨fun _ h => (by cases h), fun _ _ => start⟩
  | cons increment increments ih =>
    obtain ⟨allowed, free⟩ := reads (.listenPortInUse (searchPort asn increment)) (.inr ⟨_, rfl⟩) m start
    refine follows_io_bind allowed (fun inUse h => ?_) fun e h =>
      ⟨fun _ he => (by cases he), fun _ _ => free _ h⟩
    cases inUse with
    | true => exact ih (free _ h)
    | false =>
      obtain ⟨allowed, reserved⟩ := reserves (searchPort asn increment) _ (free _ h)
      refine follows_io_bind allowed (fun done hr => ?_) fun e hr =>
        ⟨fun _ he => (by cases he), fun _ _ => (reserved _ hr).2 (by simp)⟩
      cases done with
      | true =>
        refine follows_return ⟨fun peer he => ?_, fun _ he => by cases he⟩
        cases he
        exact (reserved _ hr).1 rfl
      | false =>
        have start' := (reserved _ hr).2 (by simp)
        obtain ⟨allowed, taken⟩ := reads (.peerExists asn peerName) (.inl rfl) _ start'
        refine follows_io_bind allowed (fun exist hx => ?_) fun e hx =>
          ⟨fun _ he => (by cases he), fun _ _ => taken _ hx⟩
        cases exist with
        | true => exact follows_throw ⟨fun _ he => (by cases he), fun _ _ => taken _ hx⟩
        | false => exact ih (taken _ hx)

section Alone
variable {cfg : Config} {P : Call → Outcome → Prop} {w w' : World}

/-- A call that ends well has had its effect. -/
lemma io_ends {c : Io} {v : c.Value} (h : Ends (exec cfg) P w (io c).run (.ok v) w') :
    effect cfg c w = (.ok v, w') := by
  obtain ⟨o, r, u, -, hx, hend⟩ := ends_call.mp h
  obtain ⟨rfl, rfl⟩ := ends_done.mp hend
  exact exec_ok hx

lemma withLock_ends {l : Lock} {body : Manager α} {a : α}
    (h : Ends (exec cfg) P w (withLock l body).run (.ok a) w') :
    ∃ v, Ends (exec cfg) P { w with locks := l :: w.locks } body.run (.ok a) v ∧
      w' = { v with locks := v.locks.erase l } := by
  obtain ⟨o, r, u, -, hlock, hrest⟩ := ends_call.mp h
  obtain ⟨b, v, hbody, hunlock⟩ := ends_bind.mp hrest
  obtain ⟨o', r', u', -, hx, hend⟩ := ends_call.mp hunlock
  obtain ⟨rfl, rfl⟩ := ends_done.mp hend
  cases o <;> simp only [exec, Option.ite_none_left_eq_some, reduceCtorEq, Option.some.injEq,
    Prod.mk.injEq] at hlock
  cases o' <;> simp only [exec, reduceCtorEq, Option.some.injEq, Prod.mk.injEq] at hx
  obtain ⟨-, -, rfl⟩ := hlock
  exact ⟨v, hbody, hx.2.symm⟩

/-- `if !flag { return Err }` that went on. -/
lemma guard_ends {c : Io} {f : c.Value → Manager α} {a : α}
    (h : Ends (exec cfg) P w (io c >>= f).run (.ok a) w') :
    ∃ v u, effect cfg c w = (.ok v, u) ∧ Ends (exec cfg) P u (f v).run (.ok a) w' := by
  obtain ⟨v, u, hc, hf⟩ := Ends.bind_ok h
  exact ⟨v, u, io_ends hc, hf⟩

end Alone

section System
variable {cfg : Config} {Q : Op → M → Reply → Prop} {J : World → (ℕ → M) → Prop} {s s' : System}
  {l : Label}

/-- One step of the system keeps an invariant of the world and the modes if each kind of step
does; each may count on the tasks following the discipline. -/
theorem obeying_step (h : Keeps D Q J s) (hs : step cfg l s = some s')
    (call : ∀ i o, l = .task i o → ∀ (μ : ℕ → M) t e next r w', Obeys D Q μ s →
      s.tasks[i]? = some (t, .call e next) → J s.world μ → exec cfg o e s.world = some (r, w') →
      D.answer (μ i) e r ∧ J w' (Function.update μ i (D.next (μ i) e r)))
    (start : ∀ op, l = .start op → s.serving → s.admits op → ∀ μ : ℕ → M, Obeys D Q μ s →
      J s.world μ → ∃ m, Follows D (program cfg op) m (Q op) ∧
        J s.world (Function.update μ s.tasks.length m))
    (status : ∀ peerId status, l = .sqlStatus peerId status → ∀ μ : ℕ → M, Obeys D Q μ s →
      J s.world μ →
      J (s.world.withTables (s.world.updateRow peerId fun row => { row with status }).2) μ)
    (delete : ∀ peerId, l = .sqlDelete peerId → ∀ μ : ℕ → M, Obeys D Q μ s → J s.world μ →
      J (s.world.withTables (s.world.deleteRow peerId).2) μ)
    (restart : l = .restart → ∀ μ : ℕ → M, Obeys D Q μ s → J s.world μ → ∃ m,
      Follows D (program cfg .recover) m (Q .recover) ∧
        J { s.world with locks := [] } (Function.update (fun _ => D.rest) 0 m)) :
    Keeps D Q J s' := by
  obtain ⟨μ, hob, hJ⟩ := h
  cases l with
  | task i o =>
    obtain ⟨t, e, next, r, w', ht, hx, rfl⟩ := Pool.stepTask_cases hs
    obtain ⟨hr, hJ'⟩ := call i o rfl μ t e next r w' hob ht hJ hx
    exact ⟨_, hob.call ht hr, hJ'⟩
  | start op =>
    simp only [step, Option.ite_none_right_eq_some, Bool.and_eq_true, Option.some.injEq] at hs
    obtain ⟨⟨hserve, hadmit⟩, rfl⟩ := hs
    obtain ⟨m, hm, hJ'⟩ := start op rfl hserve hadmit μ hob hJ
    exact ⟨_, hob.spawn hm, hJ'⟩
  | sqlStatus peerId st =>
    cases hs
    exact ⟨μ, hob.world _, status peerId st rfl μ hob hJ⟩
  | sqlDelete peerId =>
    cases hs
    exact ⟨μ, hob.world _, delete peerId rfl μ hob hJ⟩
  | restart =>
    cases hs
    obtain ⟨m, hm, hJ'⟩ := restart rfl μ hob hJ
    exact ⟨_, .single hm, hJ'⟩

/-- The same where what the tasks may call is all that counts. -/
theorem keeps_step (h : Keeps D Q J s) (hs : step cfg l s = some s')
    (call : ∀ i o, l = .task i o → ∀ (μ : ℕ → M) t e next r w', s.tasks[i]? = some (t, .call e next) →
      J s.world μ → D.allowed (μ i) e → exec cfg o e s.world = some (r, w') →
      D.answer (μ i) e r ∧ J w' (Function.update μ i (D.next (μ i) e r)))
    (start : ∀ op, l = .start op → s.serving → s.admits op → ∀ μ : ℕ → M, Obeys D Q μ s →
      J s.world μ → ∃ m, Follows D (program cfg op) m (Q op) ∧
        J s.world (Function.update μ s.tasks.length m))
    (status : ∀ peerId status, l = .sqlStatus peerId status → ∀ μ : ℕ → M, Obeys D Q μ s →
      J s.world μ →
      J (s.world.withTables (s.world.updateRow peerId fun row => { row with status }).2) μ)
    (delete : ∀ peerId, l = .sqlDelete peerId → ∀ μ : ℕ → M, Obeys D Q μ s → J s.world μ →
      J (s.world.withTables (s.world.deleteRow peerId).2) μ)
    (restart : l = .restart → ∀ μ : ℕ → M, J s.world μ → ∃ m,
      Follows D (program cfg .recover) m (Q .recover) ∧
        J { s.world with locks := [] } (Function.update (fun _ => D.rest) 0 m)) :
    Keeps D Q J s' :=
  obeying_step h hs
    (fun i o hl μ t e next r w' hob ht hJ => call i o hl μ t e next r w' ht hJ (hob.allowed ht))
    start status delete fun hl μ _ => restart hl μ

end System

end Autopeer.ManagerRules
