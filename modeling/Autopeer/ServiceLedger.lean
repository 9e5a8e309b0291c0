import Autopeer.ServiceClearance

/-! What the tasks of the service have, against the histories of the challenges, of the registry and of
the rows. Each request acts on a challenge and an approval of its own, the permits of the registry are
all given back, and no AS gets more peers than challenges. -/
namespace Autopeer.ServiceLedger
open Ipv6 PeerData SignedMessage ProgramTree ProgramPool TransitionRuns ProgramEmbedding
open ManagerWorld ManagerPrograms ManagerSystem ManagerFootprints ManagerEffects ManagerRules
open OperationEffects TableInvariant ChallengeSystem SingleUse HttpHandlers ServiceSystem
open ServiceClearance

section Ledger
variable {v : Deployment} {base : UInt32 → ℕ} {w w' : State} {μ : ℕ → Standing} {i n : ℕ}
  {ν : ℕ × ℕ → Holding × Permit}

/-- The task has consumed a challenge of the AS and has not reserved yet. -/
def Pending (asn : UInt32) (m : Standing) : Prop :=
  (∃ row now, m.passage.1 = .spent row now ∧ row.asn = asn) ∧ m.reserved = false

def born (t : Tables) (asn : UInt32) : ℕ := t.born.countP fun r => r.asn = asn

def consumed (w : Store) (asn : UInt32) : ℕ := w.consumed.countP fun x => x.1.asn = asn

/-- The histories account for what the tasks of all processes have; `ν` says what task `k` of process
`n` has, or had when that process ended. -/
structure Ledger (v : Deployment) (base : UInt32 → ℕ) (n : ℕ) (ν : ℕ × ℕ → Holding × Permit)
    (w : State) (μ : ℕ → Standing) : Prop where
  current : ∀ k, ν (n, k) = (μ k).passage
  later : ∀ n' k, n < n' → ν (n', k) = passing.rest
  accounts : Accounts w.store fun x => (ν x).1
  permits : (w.store.permits : ℕ∞) + {k | (μ k).passage.2.held = true}.encard = v.maxConcurrent
  approved : ∀ a, {x | (ν x).2.approved = some a}.encard ≤ w.approved.count a
  budget : ∀ asn, (born w.manager.toTables asn : ℕ∞) + {k | Pending asn (μ k)}.encard ≤
    base asn + consumed w.store asn

lemma exec_query {o : Outcome ⊕ Event} {q : Query} {r : Result q} {cfg : Config}
    (h : exec cfg o (.inr q) w = some (r, w')) : ∃ event u,
      ChallengeSystem.exec event q w.store = some (r, u) ∧
      w' = { w with store := u, approved := w.approved ++ approval q r } := by
  cases o with
  | inl o => cases h
  | inr event =>
    obtain ⟨⟨r', u⟩, hx, he⟩ := Option.map_eq_some_iff.mp h
    cases he
    exact ⟨event, u, hx, rfl⟩

lemma exec_manager {o : Outcome ⊕ Event} {c : Call} {r : Answer c} {cfg : Config}
    (h : exec cfg o (.inl c) w = some (r, w')) : ∃ outcome u,
      ManagerWorld.exec cfg outcome c w.manager = some (r, u) ∧ w' = { w with manager := u } := by
  cases o with
  | inr event => cases h
  | inl outcome =>
    obtain ⟨⟨r', u⟩, hx, he⟩ := Option.map_eq_some_iff.mp h
    cases he
    exact ⟨outcome, u, hx, rfl⟩

section Query
variable {q : Query} {r : Result q} {o : Event} {u u' : Store} {n : ℕ∞}

/-- Only the two queries on the semaphore move the permits. -/
lemma permits_frame (hx : ChallengeSystem.exec o q u = some (r, u')) (hacquire : q ≠ .tryAcquire)
    (hrelease : q ≠ .release) :
    u'.permits = u.permits ∧ ∀ m, (permitNext m q r).held = m.held := by
  cases q with
  | tryAcquire => exact absurd rfl hacquire
  | release => exact absurd rfl hrelease
  | insertNonce row =>
    cases o <;> cases hx
    · rcases insert_cases u row with hr | ⟨-, hr⟩ <;> rw [hr] <;> exact ⟨rfl, fun _ => rfl⟩
    · exact ⟨rfl, fun _ => rfl⟩
  | checkRegistry asn publicKey =>
    cases o with
    | registry authorized => cases hx; cases authorized <;> exact ⟨rfl, fun _ => rfl⟩
    | fails error => cases hx; exact ⟨rfl, fun _ => rfl⟩
    | _ => cases hx
  | _ => cases o <;> cases hx <;> exact ⟨rfl, fun _ => rfl⟩

lemma permits_step (h : (u.permits : ℕ∞) + {k | (μ k).passage.2.held = true}.encard = n)
    (ha : permitAllowed (μ i).passage.2 q) (hx : ChallengeSystem.exec o q u = some (r, u')) :
    (u'.permits : ℕ∞) + {k | (Function.update μ i
      (clearanceNext (μ i) (.inr q) r) k).passage.2.held = true}.encard = n := by
  let p (m : Standing) : Prop := m.passage.2.held = true
  have frame : q ≠ .tryAcquire → q ≠ .release → (u'.permits : ℕ∞) +
      {k | p (Function.update μ i (clearanceNext (μ i) (.inr q) r) k)}.encard = n := by
    intro hacquire hrelease
    obtain ⟨hpermits, hheld⟩ := permits_frame hx hacquire hrelease
    have hheld : (clearanceNext (μ i) (.inr q) r).passage.2.held = (μ i).passage.2.held := hheld _
    rw [hpermits, encard_same (p := p) μ (by simp only [p, hheld])]
    exact h
  cases q with
  | tryAcquire =>
    have hfree : (μ i).passage.2.held = false := ha
    cases o with
    | ok =>
      rw [ChallengeSystem.exec] at hx
      split at hx
      · cases hx
        have hnone : (clearanceNext (μ i) (.inr .tryAcquire) false).passage.2.held = false := rfl
        have same := encard_same (p := p) μ (i := i)
          (m := clearanceNext (μ i) (.inr .tryAcquire) false) (by simp only [p, hfree, hnone])
        exact (congrArg _ same).trans h
      · rename_i hpos
        cases hx
        have new := encard_new (p := p) μ (i := i)
          (m := clearanceNext (μ i) (.inr .tryAcquire) true) (by simp [p, hfree]) rfl
        obtain ⟨k, hk⟩ := Nat.exists_eq_succ_of_ne_zero hpos
        refine (congrArg _ new).trans (Eq.trans ?_ h)
        rw [hk]
        push_cast
        ring
    | _ => cases hx
  | release =>
    cases o with
    | ok =>
      cases hx
      have hnone : (clearanceNext (μ i) (.inr .release) ()).passage.2.held = false := rfl
      have drop := encard_drop (p := p) μ (i := i) (m := clearanceNext (μ i) (.inr .release) ()) ha
        (by simp only [p, hnone]; decide)
      refine Eq.trans ?_ (Eq.trans (congrArg _ drop) h)
      push_cast
      ring
    | _ => cases hx
  | _ => exact frame (by simp) (by simp)

lemma approved_step {approved : List Approval} {x : ℕ × ℕ}
    (h : ∀ a, {x | (ν x).2.approved = some a}.encard ≤ approved.count a) (a : Approval) :
    {y | (Function.update ν x (passing.next (ν x) q r) y).2.approved = some a}.encard ≤
      (approved ++ approval q r).count a := by
  let p (m : Holding × Permit) : Prop := m.2.approved = some a
  have frame : (permitNext (ν x).2 q r).approved = (ν x).2.approved →
      {y | p (Function.update ν x (passing.next (ν x) q r) y)}.encard ≤
        approved.count a + (approval q r).count a := by
    intro hsame
    have hsame : (passing.next (ν x) q r).2.approved = (ν x).2.approved := hsame
    calc {y | p (Function.update ν x (passing.next (ν x) q r) y)}.encard
        = {y | p (ν y)}.encard := encard_same (p := p) ν (by simp only [p, hsame])
      _ ≤ approved.count a := h a
      _ ≤ approved.count a + (approval q r).count a := le_self_add
  rw [List.count_append]
  push_cast
  cases q with
  | checkRegistry asn publicKey =>
    match r with
    | .error e => exact frame rfl
    | .ok false => exact frame rfl
    | .ok true =>
      by_cases ha : a = ⟨asn, publicKey⟩
      · have one : (approval (.checkRegistry asn publicKey) (.ok true)).count a = 1 := by
          simp [approval, ha]
        rw [one]
        exact (encard_le_succ (p := p) ν).trans (add_le_add_left (h a) 1)
      · refine (encard_le (p := p) ν fun hm => ?_).trans ((h a).trans le_self_add)
        exact absurd (Option.some.inj hm).symm ha
  | tryAcquire => exact frame rfl
  | _ => exact frame rfl

/-- Only the deletion of its row lets a task spend a challenge. -/
lemma spent_frame (hx : ChallengeSystem.exec o q u = some (r, u'))
    (hq : ∀ row now, q ≠ .deleteNonce row now) : u'.consumed = u.consumed ∧
      ∀ m row now, holdingNext m q r = .spent row now → m = .spent row now := by
  cases q with
  | deleteNonce row now => exact absurd rfl (hq row now)
  | insertNonce row =>
    cases o <;> cases hx
    · rcases insert_cases u row with hr | ⟨-, hr⟩ <;> rw [hr] <;> simp [holdingNext]
    · exact ⟨rfl, fun _ _ _ => id⟩
  | tryAcquire =>
    cases o with
    | ok =>
      rw [ChallengeSystem.exec] at hx
      split at hx <;> cases hx <;> exact ⟨rfl, fun _ _ _ => id⟩
    | _ => cases hx
  | unixTimestamp =>
    cases o <;> cases hx
    simp [holdingNext]
  | _ => cases o <;> cases hx <;> exact ⟨rfl, fun _ _ _ => id⟩

lemma budget_step {asn : UInt32} {b c : ℕ∞}
    (h : b + {k | Pending asn (μ k)}.encard ≤ c + consumed u asn) (hk : Keyed u)
    (hx : ChallengeSystem.exec o q u = some (r, u')) :
    b + {k | Pending asn (Function.update μ i (clearanceNext (μ i) (.inr q) r) k)}.encard ≤
      c + consumed u' asn := by
  have frame : u'.consumed = u.consumed →
      (Pending asn (clearanceNext (μ i) (.inr q) r) → Pending asn (μ i)) →
      b + {k | Pending asn (Function.update μ i (clearanceNext (μ i) (.inr q) r) k)}.encard ≤
        c + consumed u' asn := by
    intro hsame hle
    rw [consumed, hsame]
    exact (add_le_add_right (encard_le (p := Pending asn) μ hle) b).trans h
  by_cases hq : ∀ row now, q ≠ .deleteNonce row now
  · obtain ⟨hsame, hspent⟩ := spent_frame hx hq
    refine frame hsame ?_
    rintro ⟨⟨row, now, hnext, hasn⟩, hreserved⟩
    exact ⟨⟨row, now, hspent _ row now hnext, hasn⟩, hreserved⟩
  · obtain ⟨row, now, rfl⟩ : ∃ row now, q = .deleteNonce row now := by simpa using hq
    cases o with
    | fails error =>
      cases hx
      exact frame rfl id
    | late error =>
      cases hx
      refine (add_le_add_right (encard_le (p := Pending asn) μ id) b).trans
        (h.trans (add_le_add_right ?_ c))
      rcases consume_cases row now hk with hr | ⟨-, -, hr⟩ <;> rw [hr]
      rw [consumed, consumed, List.countP_append]
      exact_mod_cast Nat.le_add_right _ _
    | ok =>
      cases hx
      rcases consume_cases row now hk with hr | ⟨-, -, hr⟩ <;> rw [hr] at frame ⊢
      · exact frame rfl id
      · have count : consumed { u with
            nonces := u.nonces.filter (· ≠ row), consumed := u.consumed ++ [(row, now)] } asn =
            consumed u asn + if row.asn = asn then 1 else 0 := by
          simp [consumed, List.countP_append, List.countP_singleton]
        rw [count]
        by_cases hasn : row.asn = asn
        · rw [if_pos hasn]
          push_cast
          calc b + _ ≤ b + ({k | Pending asn (μ k)}.encard + 1) :=
                add_le_add_right (encard_le_succ (p := Pending asn) μ) b
            _ ≤ c + (consumed u asn + 1) := by
                rw [← add_assoc, ← add_assoc]
                exact add_le_add_left h 1
        · rw [if_neg hasn, add_zero]
          refine (add_le_add_right (encard_le (p := Pending asn) μ ?_) b).trans h
          rintro ⟨⟨row', now', hnext, hasn'⟩, -⟩
          cases hnext
          exact absurd hasn' hasn
    | _ => cases hx

end Query

section Manager
variable {cfg : Config} {o : Outcome} {x x' : World}

/-- A reservation inserts one row, if it is not refused. -/
lemma exec_reservePeer_born {p : Peer} {test : Bool} {a : Except PeerError Bool}
    (hx : ManagerWorld.exec cfg o (.io (.reservePeer p test)) x = some (a, x')) :
    x'.born = x.born ∨ a ≠ .ok false ∧ ∃ r, r.asn = p.asn ∧ x'.born = x.born ++ [r] := by
  have inserted : (effect cfg (.reservePeer p test) x).2.born = x.born ∨
      (effect cfg (.reservePeer p test) x).1 ≠ .ok false ∧
        ∃ r : Peer, r.asn = p.asn ∧ (effect cfg (.reservePeer p test) x).2.born = x.born ++ [r] := by
    simp only [effect]
    split
    · exact .inl rfl
    · split
      · exact .inl rfl
      · exact .inr ⟨by simp, { p with status := .provisioning }, rfl, rfl⟩
  rcases exec_tables hx with he | ⟨⟨error, rfl⟩, ht | ht⟩
  · rwa [he] at inserted
  · exact .inl (by rw [ht])
  · rcases inserted with h | ⟨-, r, hr, h⟩
    · exact .inl (by rw [ht, h])
    · exact .inr ⟨by simp, r, hr, by rw [ht, h]⟩

lemma budget_manager {asn : UInt32} {n : ℕ∞} {c : Call} {a : Answer c} {v : Deployment}
    (h : (born x.toTables asn : ℕ∞) + {k | Pending asn (μ k)}.encard ≤ n)
    (ha : clearanceAllowed v (μ i) (.inl c)) (hx : ManagerWorld.exec cfg o c x = some (a, x')) :
    (born x'.toTables asn : ℕ∞) +
      {k | Pending asn (Function.update μ i (clearanceNext (μ i) (.inl c) a) k)}.encard ≤ n := by
  have frame : x'.born = x.born →
      (Pending asn (clearanceNext (μ i) (.inl c) a) → Pending asn (μ i)) →
      (born x'.toTables asn : ℕ∞) +
        {k | Pending asn (Function.update μ i (clearanceNext (μ i) (.inl c) a) k)}.encard ≤ n := by
    intro hsame hle
    rw [born, hsame]
    exact (add_le_add_right (encard_le (p := Pending asn) μ hle) _).trans h
  by_cases hc : Unreserving c
  · refine frame (exec_born_eq hx fun p test he => by subst he; exact hc) ?_
    rintro ⟨hspent, hreserved⟩
    refine ⟨hspent, ?_⟩
    exact ((reserving_kept (a := (μ i).asn) hc).2 a).symm.trans hreserved
  · obtain ⟨p, test, rfl⟩ : ∃ p test, c = .io (.reservePeer p test) := by
      cases c with
      | io c => cases c <;> first | exact ⟨_, _, rfl⟩ | exact absurd trivial hc
      | _ => exact absurd trivial hc
    obtain ⟨-, cleared, hfresh, hasn⟩ := ha
    rcases exec_reservePeer_born hx with hsame | ⟨ha, r, hr, hborn⟩
    · exact frame hsame fun hp => ⟨hp.1, hfresh⟩
    · have done : ¬Pending asn (clearanceNext (μ i) (.inl (.io (.reservePeer p test))) a) := by
        rintro ⟨-, hreserved⟩
        match a with
        | .error e => cases hreserved
        | .ok true => cases hreserved
        | .ok false => exact ha rfl
      have count : born x'.toTables asn = born x.toTables asn + if p.asn = asn then 1 else 0 := by
        simp [born, hborn, List.countP_append, List.countP_singleton, hr]
      by_cases hp : p.asn = asn
      · have pending : Pending asn (μ i) := by
          unfold Standing.asn at hasn
          split at hasn
          · rename_i request hw
            obtain ⟨_, challenge, now, -, -, -, hspent, -⟩ := cleared request hw
            exact ⟨⟨_, now, hspent, (Option.some.inj hasn).trans hp⟩, hfresh⟩
          · cases hasn
        rw [← encard_drop (p := Pending asn) μ pending done] at h
        rw [count, if_pos hp]
        refine le_trans (le_of_eq ?_) h
        push_cast
        ring
      · rw [count, if_neg hp, add_zero]
        exact (add_le_add_right (encard_le (p := Pending asn) μ fun hm => absurd hm done) _).trans h

end Manager

/-- A task takes a mode that has the same passage. -/
lemma Ledger.move (h : Ledger v base n ν w μ) {m : Standing} {x : World}
    (hm : m.passage = (μ i).passage)
    (budget : ∀ asn, (born x.toTables asn : ℕ∞) +
      {k | Pending asn (Function.update μ i m k)}.encard ≤ base asn + consumed w.store asn) :
    Ledger v base n ν { w with manager := x } (Function.update μ i m) where
  current := fun k => by
    by_cases hk : k = i
    · rw [hk, Function.update_self, hm, h.current]
    · rw [Function.update_of_ne hk, h.current]
  later := h.later
  accounts := h.accounts
  permits := by
    rw [encard_same (p := fun m : Standing => m.passage.2.held = true) μ (by rw [hm])]
    exact h.permits
  approved := h.approved
  budget := budget

/-- A query moves the entry of its task in `ν`, a call of the manager none. -/
theorem Ledger.call (h : Ledger v base n ν w μ) {cfg : Config} {e : ServiceCall} {r : ServiceAnswer e}
    {o : Outcome ⊕ Event} (ha : clearanceAllowed v (μ i) e) (hx : exec cfg o e w = some (r, w')) :
    ∃ ν', Ledger v base n ν' w' (Function.update μ i (clearanceNext (μ i) e r)) ∧
      ∀ x, ν' x = ν x ∨ x = (n, i) ∧ ∃ q, e = .inr q := by
  cases e with
  | inl c =>
    obtain ⟨outcome, x, hcall, rfl⟩ := exec_manager hx
    exact ⟨ν, h.move rfl fun asn => budget_manager (h.budget asn) ha hcall, fun _ => .inl rfl⟩
  | inr q =>
    obtain ⟨event, u, hquery, rfl⟩ := exec_query hx
    have hi := h.current i
    have accounts := h.accounts.step (i := (n, i)) (hi ▸ ha.2.1) hquery
    refine ⟨Function.update ν (n, i) (passing.next (ν (n, i)) q r), ⟨fun k => ?_, fun n' k hn => ?_, ?_,
      permits_step h.permits ha.2.2 hquery, approved_step h.approved,
      fun asn => budget_step (h.budget asn) h.accounts.keyed hquery⟩, fun x => ?_⟩
    · by_cases hk : k = i
      · rw [hk, Function.update_self, Function.update_self, hi]
        rfl
      · rw [Function.update_of_ne hk, Function.update_of_ne (by simp [hk])]
        exact h.current k
    · rw [Function.update_of_ne (by simp [hn.ne'])]
      exact h.later n' k hn
    · have first : (fun x => (Function.update ν (n, i) (passing.next (ν (n, i)) q r) x).1) =
          Function.update (fun x => (ν x).1) (n, i) (holdingNext (ν (n, i)).1 q r) :=
        Function.comp_update Prod.fst ν (n, i) _
      rw [first]
      exact accounts
    · by_cases hxi : x = (n, i)
      · exact .inr ⟨hxi, q, rfl⟩
      · exact .inl (Function.update_of_ne hxi _ _)

/-- Every task obeys the discipline and the books are right, in process `n`. -/
def Booked (v : Deployment) (base : UInt32 → ℕ) (n : ℕ) (ν : ℕ × ℕ → Holding × Permit) :
    Service → Prop :=
  Keeps (clearance v) (Ends v) (Ledger v base n ν)

def Kept (v : Deployment) (base : UInt32 → ℕ) (s : Service) : Prop := ∃ n ν, Booked v base n ν s

variable {s s' : Service}

lemma Booked.spawn (h : Booked v base n ν s) (work' : Work) :
    Booked v base n ν (s.spawn work' (work v work')) := by
  obtain ⟨μ, hob, hJ⟩ := h
  refine ⟨_, hob.spawn (follows_work work'), ?_⟩
  have rest : μ s.tasks.length = (clearance v).rest := hob.resting _ le_rfl
  refine hJ.move (by rw [rest]; rfl) fun asn => ?_
  rw [encard_same (p := Pending asn) μ (by rw [rest]; rfl)]
  exact hJ.budget asn

lemma Booked.tables (h : Booked v base n ν s) {t : Tables} (ht : t.born = s.world.manager.born) :
    Booked v base n ν { s with world.manager := s.world.manager.withTables t } := by
  obtain ⟨μ, hob, hJ⟩ := h
  refine ⟨μ, hob.world _, hJ.current, hJ.later, hJ.accounts, hJ.permits, hJ.approved, fun asn => ?_⟩
  have same : born t asn = born s.world.manager.toTables asn := by rw [born, born, ht]
  exact (congrArg (fun n : ℕ => (n : ℕ∞) + _) same).trans_le (hJ.budget asn)

lemma Booked.restart (h : Booked v base n ν s) : Booked v base (n + 1) ν
    ⟨{ s.world with
        manager := { s.world.manager with locks := [] }
        store := { s.world.store with permits := v.maxConcurrent } }, [(.recover, work v .recover)]⟩ := by
  obtain ⟨μ, hob, hJ⟩ := h
  have idle : ∀ k, (Function.update (fun _ => (clearance v).rest) 0 (Standing.start .recover) k).passage =
      passing.rest ∧ ∀ asn, ¬Pending asn
        (Function.update (fun _ => (clearance v).rest) 0 (Standing.start .recover) k) := by
    intro k
    by_cases hk : k = 0
    · rw [hk, Function.update_self]
      refine ⟨rfl, ?_⟩
      rintro asn ⟨⟨row, now, hspent, -⟩, -⟩
      cases hspent
    · rw [Function.update_of_ne hk]
      refine ⟨rfl, ?_⟩
      rintro asn ⟨⟨row, now, hspent, -⟩, -⟩
      cases hspent
  refine ⟨_, Obeys.single (follows_work .recover), ⟨fun k => ?_, fun n' k hn => ?_,
    ⟨hJ.accounts.keyed, hJ.accounts.minted, hJ.accounts.spent, hJ.accounts.balance,
      hJ.accounts.inTime⟩, ?_, hJ.approved, fun asn => ?_⟩⟩
  · rw [(idle k).1, hJ.later _ _ (Nat.lt_succ_self n)]
  · exact hJ.later n' k (by omega)
  · have none : {k | (Function.update (fun _ => (clearance v).rest) 0
        (Standing.start .recover) k).passage.2.held = true} = ∅ :=
      Set.eq_empty_of_forall_notMem fun k hk => by
        rw [Set.mem_ofPred_eq, (idle k).1] at hk
        cases hk
    rw [none]
    simp
  · have none : {k | Pending asn (Function.update (fun _ => (clearance v).rest) 0
        (Standing.start .recover) k)} = ∅ :=
      Set.eq_empty_of_forall_notMem fun k hk => (idle k).2 asn hk
    rw [none, Set.encard_empty, add_zero]
    exact le_self_add.trans (hJ.budget asn)

/-- A step keeps the books, in the next process if it is a restart; it moves at most the entry of a task
that makes a query. -/
theorem Booked.step {l : ServiceSystem.Label} (h : Booked v base n ν s)
    (hs : ServiceSystem.step v l s = some s') :
    ∃ ν', Booked v base (n + restarts [l]) ν' s' ∧ ∀ x, ν' x = ν x ∨
      ∃ i t q next, x = (n, i) ∧ s.tasks[i]? = some (t, .call (.inr q) next) := by
  cases l with
  | task i o =>
    obtain ⟨μ, hob, hJ⟩ := h
    obtain ⟨t, e, next, r, u, ht, hx, rfl⟩ := Pool.stepTask_cases hs
    obtain ⟨ν', hJ', same⟩ := hJ.call (hob.allowed ht) hx
    refine ⟨ν', ⟨_, hob.call ht trivial, hJ'⟩, fun x => ?_⟩
    rcases same x with hsame | ⟨hxi, q, rfl⟩
    · exact .inl hsame
    · exact .inr ⟨i, t, q, next, hxi, ht⟩
  | request request =>
    obtain ⟨-, hs⟩ := Option.ite_none_right_eq_some.mp hs
    cases hs
    exact ⟨ν, h.spawn _, fun _ => .inl rfl⟩
  | notify =>
    obtain ⟨-, hs⟩ := Option.ite_none_right_eq_some.mp hs
    cases hs
    exact ⟨ν, h.spawn _, fun _ => .inl rfl⟩
  | tick =>
    obtain ⟨-, hs⟩ := Option.ite_none_right_eq_some.mp hs
    cases hs
    exact ⟨ν, h.spawn _, fun _ => .inl rfl⟩
  | sqlStatus peerId status =>
    cases hs
    exact ⟨ν, h.tables updateRow_born, fun _ => .inl rfl⟩
  | sqlDelete peerId =>
    cases hs
    exact ⟨ν, h.tables deleteRow_born, fun _ => .inl rfl⟩
  | restart =>
    cases hs
    exact ⟨ν, h.restart, fun _ => .inl rfl⟩

theorem kept_step {l : ServiceSystem.Label} (h : Kept v base s) (hs : ServiceSystem.step v l s = some s') :
    Kept v base s' := by
  obtain ⟨n, ν, hn⟩ := h
  obtain ⟨ν', hn', -⟩ := hn.step hs
  exact ⟨_, ν', hn'⟩

lemma booked_stopped (w : World) :
    Booked v (born w.toTables) 0 (fun _ => passing.rest) (Service.stopped v w) := by
  refine ⟨fun _ => (clearance v).rest, Obeys.nil, fun _ => rfl, fun _ _ _ => rfl,
    ⟨List.nodup_nil, fun row => ?_, fun row => ?_, fun row => ?_, ?_⟩, ?_, fun a => ?_, fun asn => ?_⟩
  · simp [Service.stopped, passing, Discipline.both, holding]
  · simp [Service.stopped, uses, passing, Discipline.both, holding]
  · simp [Service.stopped, uses]
  · simp [Service.stopped]
  · simp [Service.stopped, clearance, passing, Discipline.both, permitting, Permit.none]
  · simp [passing, Discipline.both, permitting, Permit.none]
  · simp [Service.stopped, Pending, clearance, passing, Discipline.both, holding, consumed]

lemma kept_stopped (w : World) : Kept v (born w.toTables) (Service.stopped v w) :=
  ⟨_, _, booked_stopped w⟩

lemma Reaches.kept {w : World} {P : Service → ServiceSystem.Label → Prop}
    (h : Reaches (ServiceSystem.step v) P (Service.stopped v w) s) : Kept v (born w.toTables) s :=
  h.invariant (kept_stopped w) fun _ _ _ hJ _ hs => kept_step hJ hs

end Ledger

section Requests
variable {v : Deployment} {w : World} {s : Service} {P : Service → ServiceSystem.Label → Prop}

/-- The request works on the peers, or was answered with a peer. -/
def Acts (s : Service) (k : ℕ) (request : HttpRequest) : Prop :=
  (∃ c next, s.tasks[k]? = some (.request request, .call (.inl c) next)) ∨
    ∃ status response, s.tasks[k]? = some (.request request, .done (.inl ⟨status, .peer response⟩))

/-- Task `k` is about to ask the registry. -/
def AsksRegistry (s : Service) (k : ℕ) : Prop :=
  ∃ w asn publicKey next,
    s.tasks[k]? = some (w, .call (.inr (.checkRegistry asn publicKey)) next)

variable {μ : ℕ → Standing} {k : ℕ} {request : HttpRequest}

lemma answer_nonempty : (e : ServiceCall) → Nonempty (ServiceAnswer e)
  | .inl (.lock _) | .inl (.unlock _) | .inr .release => ⟨()⟩
  | .inl (.resolveEndpoint _) | .inl (.io _) => ⟨.error .registryMismatch⟩
  | .inr .unixTimestamp => ⟨0⟩
  | .inr .generatePreshared => ⟨""⟩
  | .inr .tryAcquire => ⟨false⟩
  | .inr .acquire | .inr (.deleteExpired _) | .inr (.insertNonce _) | .inr (.deleteNonce ..)
  | .inr (.checkRegistry ..) => ⟨.error .registryMismatch⟩

lemma work_of_task {t : Work} {p : Program ServiceCall ServiceAnswer (HttpReply ⊕ Reply)}
    (hob : Obeys (clearance v) (Ends v) μ s) (hk : s.tasks[k]? = some (t, p)) :
    (μ k).work = some t := by
  refine Follows.tag_eq Standing.work ((hob.follows k t p hk).mono fun _ _ h => h.1)
    (fun m e r => ?_) fun m e => ⟨(answer_nonempty e).some, trivial⟩
  cases e <;> rfl

lemma Acts.cleared (hob : Obeys (clearance v) (Ends v) μ s) (h : Acts s k request) :
    Cleared v request (μ k).passage := by
  rcases h with ⟨c, next, hk⟩ | ⟨status, response, hk⟩
  · exact (hob.allowed hk).2.1 request (work_of_task hob hk)
  · exact (hob.ended hk).2.2 request rfl status response rfl

/-- The task goes on with what it was started for, at the manager. -/
def Hands (v : Deployment) (s : Service) (k : ℕ) : Prop :=
  ∃ t p, s.tasks[k]? = some (t, p) ∧ HandedOver managerCalls (fun q f => ∃ op, Starts v t op q f) p

lemma Hands.step {l : ServiceSystem.Label} {s' : Service} (h : Hands v s k)
    (hs : ServiceSystem.step v l s = some s') (hl : restarts [l] = 0) : Hands v s' k := by
  obtain ⟨t, p, hk, handed⟩ := h
  have spawned : ∀ w, Hands v (s.spawn w (work v w)) k := fun w =>
    ⟨t, p, by rwa [Pool.spawn, List.getElem?_append_left (List.getElem?_eq_some_iff.mp hk).1], handed⟩
  cases l with
  | task i o =>
    obtain ⟨t', e, next, r, u, ht, -, rfl⟩ := Pool.stepTask_cases hs
    by_cases hik : i = k
    · subst hik
      cases ht.symm.trans hk
      exact ⟨_, _, List.getElem?_set_self (List.getElem?_eq_some_iff.mp ht).1, handed.next r⟩
    · exact ⟨t, p, by rwa [List.getElem?_set_ne hik], handed⟩
  | request request =>
    obtain ⟨-, hs⟩ := Option.ite_none_right_eq_some.mp hs
    cases hs
    exact spawned _
  | notify =>
    obtain ⟨-, hs⟩ := Option.ite_none_right_eq_some.mp hs
    cases hs
    exact spawned _
  | tick =>
    obtain ⟨-, hs⟩ := Option.ite_none_right_eq_some.mp hs
    cases hs
    exact spawned _
  | restart => cases hl
  | _ =>
    cases hs
    exact ⟨t, p, hk, handed⟩

lemma Acts.handed (hc : OnCourse v s) (h : Acts s k request) : Hands v s k := by
  rcases h with ⟨c, next, hk⟩ | ⟨status, response, hk⟩
  · exact ⟨_, _, hk, (hc k _ _ hk).of_call⟩
  · exact ⟨_, _, hk, (hc k _ _ hk).of_done fun alone => alone status response rfl⟩

/-- The task goes on with what the manager has left to do for the mutation, and will answer with the
result. -/
def CarriesOut (v : Deployment) (s : Service) (k : ℕ) (request : HttpRequest) (mutation : Mutation) :
    Prop :=
  ∃ q, Remains (program v.cfg (opOf mutation)) q ∧ s.tasks[k]? =
    some (.request request, embed managerCalls q >>= fun reply => .done (answer v mutation reply))

lemma Acts.carriesOut {mutation : Mutation} (hc : OnCourse v s) (h : Acts s k request)
    (hm : Parses v request mutation) : CarriesOut v s k request mutation := by
  obtain ⟨t, p, hk, q₀, q, f, ⟨op, ⟨asks, rfl⟩⟩, left, rfl⟩ := h.handed hc
  obtain rfl : t = .request request := by
    rcases h with ⟨c, next, hk'⟩ | ⟨status, response, hk'⟩ <;>
      exact congrArg Prod.fst (Option.some.inj (hk.symm.trans hk'))
  obtain ⟨mutation', hm', rfl, rfl⟩ := asks
  obtain rfl := Parses.unique v hm hm'
  exact ⟨q, left, hk⟩

/-- The request was task `x.2` of process `x.1` in these steps, and at some time it acted. -/
def ActsIn (v : Deployment) (w : World) (ls : List ServiceSystem.Label) (x : ℕ × ℕ)
    (request : HttpRequest) : Prop :=
  ∃ before u, before <+: ls ∧
    steps (ServiceSystem.step v) before (Service.stopped v w) = some u ∧ restarts before = x.1 ∧
    Acts u x.2 request

lemma Acts.actsIn {before ls : List ServiceSystem.Label} (h : Acts s k request) (hpre : before <+: ls)
    (hs : steps (ServiceSystem.step v) before (Service.stopped v w) = some s) :
    ActsIn v w ls (restarts before, k) request := ⟨before, s, hpre, hs, rfl, h⟩

/-- What is known after these steps: the books, what those who acted have by them, and that those of the
current process are past their queries. -/
structure Chronicle (v : Deployment) (w : World) (ls : List ServiceSystem.Label)
    (ν : ℕ × ℕ → Holding × Permit) (s : Service) : Prop where
  booked : Booked v (born w.toTables) (restarts ls) ν s
  course : OnCourse v s
  cleared : ∀ x request, ActsIn v w ls x request → Cleared v request (ν x)
  handed : ∀ k request, ActsIn v w ls (restarts ls, k) request → Hands v s k

lemma restarts_append (ls ls' : List ServiceSystem.Label) :
    restarts (ls ++ ls') = restarts ls + restarts ls' := List.countP_append

lemma restarts_prefix {before ls : List ServiceSystem.Label} (h : before <+: ls) :
    restarts before ≤ restarts ls := h.sublist.countP_le

/-- Who has acted after one more step had acted before it, or acts now. -/
lemma ActsIn.concat {ls : List ServiceSystem.Label} {l : ServiceSystem.Label} {x : ℕ × ℕ}
    (h : ActsIn v w (ls ++ [l]) x request) (hs : steps (ServiceSystem.step v) (ls ++ [l])
      (Service.stopped v w) = some s) :
    ActsIn v w ls x request ∨ x.1 = restarts (ls ++ [l]) ∧ Acts s x.2 request := by
  obtain ⟨before, u, hpre, hu, hn, acts⟩ := h
  rcases List.prefix_concat_iff.mp hpre with rfl | hpre
  · cases hs.symm.trans hu
    exact .inr ⟨hn.symm, acts⟩
  · exact .inl ⟨before, u, hpre, hu, hn, acts⟩

lemma Chronicle.step {ls : List ServiceSystem.Label} {l : ServiceSystem.Label}
    {ν : ℕ × ℕ → Holding × Permit} {s' : Service} (h : Chronicle v w ls ν s)
    (hls : steps (ServiceSystem.step v) (ls ++ [l]) (Service.stopped v w) = some s')
    (hs : ServiceSystem.step v l s = some s') : ∃ ν', Chronicle v w (ls ++ [l]) ν' s' := by
  obtain ⟨ν', booked, same⟩ := h.booked.step hs
  rw [← restarts_append] at booked
  have course := onCourse_step h.course hs
  refine ⟨ν', booked, course, fun x request hx => ?_, fun k request hk => ?_⟩
  · rcases hx.concat hls with hx | ⟨hn, acts⟩
    · rcases same x with hsame | ⟨i, t, q, next, rfl, hi⟩
      · exact hsame ▸ h.cleared x request hx
      · obtain ⟨t', p, hi', handed⟩ := h.handed i request hx
        cases hi.symm.trans hi'
        obtain ⟨c, hc⟩ := handed.inside
        cases hc
    · obtain ⟨μ, hob, hJ⟩ := booked
      obtain ⟨n, k⟩ := x
      obtain rfl : n = _ := hn
      rw [hJ.current]
      exact acts.cleared hob
  · rcases hk.concat hls with hx | ⟨-, acts⟩
    · by_cases hl : restarts [l] = 0
      · rw [restarts_append, hl, add_zero] at hx
        exact (h.handed k request hx).step hs hl
      · obtain ⟨before, u, hpre, -, hn, -⟩ := hx
        have := restarts_prefix hpre
        rw [restarts_append] at hn
        dsimp only at hn
        omega
    · exact acts.handed course

theorem chronicle {ls : List ServiceSystem.Label}
    (h : steps (ServiceSystem.step v) ls (Service.stopped v w) = some s) :
    ∃ ν, Chronicle v w ls ν s := by
  have start : ∃ ν, Chronicle v w [] ν (Service.stopped v w) := by
    refine ⟨_, booked_stopped w, by simp [OnCourse, Service.stopped], ?_, ?_⟩
    · rintro x request ⟨before, u, hpre, hu, -, acts⟩
      obtain rfl := List.prefix_nil.mp hpre
      cases hu
      rcases acts with ⟨c, next, hk⟩ | ⟨status, response, hk⟩ <;> cases hk
    · rintro k request ⟨before, u, hpre, hu, -, acts⟩
      obtain rfl := List.prefix_nil.mp hpre
      cases hu
      rcases acts with ⟨c, next, hk⟩ | ⟨status, response, hk⟩ <;> cases hk
  suffices run : steps (ServiceSystem.step v) ls (Service.stopped v w) = some s ∧
      ∃ ν, Chronicle v w ls ν s from run.2
  refine steps_induction (J := fun ls s => steps (ServiceSystem.step v) ls (Service.stopped v w) =
    some s ∧ ∃ ν, Chronicle v w ls ν s) ⟨rfl, start⟩ ?_ h
  rintro ls t l u - ⟨hls, ν, chronicle⟩ hl
  have hls' : steps (ServiceSystem.step v) (ls ++ [l]) (Service.stopped v w) = some u := by
    simp [steps_append, hls, steps, hl]
  exact ⟨hls', chronicle.step hls' hl⟩

/-- In every run, however often the process was started, each request that ever turned to the manager,
or was answered with a peer, had consumed a challenge of its own in time, with a signature of the
mutation that it asks for, and had an approval of the registry of its own; the manager is asked for that
mutation alone. A challenge is consumed at most as often as it was issued. -/
theorem acts_cleared {ls : List ServiceSystem.Label}
    (h : steps (ServiceSystem.step v) ls (Service.stopped v w) = some s) :
    (∃ consumption approval : ℕ × ℕ → ℕ,
      Set.InjOn consumption {x | ∃ request, ActsIn v w ls x request} ∧
      Set.InjOn approval {x | ∃ request, ActsIn v w ls x request} ∧
      ∀ before u k request, before <+: ls →
        steps (ServiceSystem.step v) before (Service.stopped v w) = some u → Acts u k request →
        ∃ mutation challenge now, Parses v request mutation ∧ request.challenge? = some challenge ∧
          v.verify challenge.auth challenge.signature
            (mutation.message challenge.nonce challenge.expiresAt) = .ok () ∧
          s.world.store.consumed[consumption (restarts before, k)]? =
            some (⟨challenge.nonce, request.asn, challenge.expiresAt⟩, now) ∧
          now ≤ challenge.expiresAt ∧
          s.world.approved[approval (restarts before, k)]? = some ⟨request.asn, challenge.auth⟩ ∧
          CarriesOut v u k request mutation) ∧
    ∀ row, uses s.world.store row ≤ s.world.store.issued.count row := by
  obtain ⟨ν, hν⟩ := chronicle h
  obtain ⟨μ, -, books⟩ := hν.booked
  refine ⟨?_, fun row => le_trans (Nat.le_add_right _ _) (books.accounts.balance row)⟩
  have spent := books.accounts.spent
  obtain ⟨consumption, toConsumed, injConsumed⟩ := exists_assignment
    (A := fun row => {x | ∃ now, (ν x).1 = .spent row now})
    (B := fun row => {k : ℕ | (s.world.store.consumed.map Prod.fst)[k]? = some row})
    (fun row => Set.finite_of_encard_le_coe (spent row))
    (fun row => (spent row).trans (encard_positions _ row).ge)
    (fun x row row' ⟨now, hx⟩ ⟨now', hx'⟩ => by cases hx.symm.trans hx'; rfl)
    fun k row row' hk hk' => Option.some.inj (hk.symm.trans hk')
  obtain ⟨approval, toApproved, injApproved⟩ := exists_assignment
    (A := fun a => {x | (ν x).2.approved = some a})
    (B := fun a => {k : ℕ | s.world.approved[k]? = some a})
    (fun a => Set.finite_of_encard_le_coe (books.approved a))
    (fun a => (books.approved a).trans (encard_positions _ a).ge)
    (fun x a a' hx hx' => Option.some.inj (hx.symm.trans hx'))
    fun k a a' hk hk' => Option.some.inj (hk.symm.trans hk')
  refine ⟨consumption, approval, injConsumed.mono ?_, injApproved.mono ?_,
    fun before u k request hpre hu acts => ?_⟩
  · rintro x ⟨request, hx⟩
    obtain ⟨-, challenge, now, -, -, -, hspent, -⟩ := hν.cleared x request hx
    exact ⟨_, now, hspent⟩
  · rintro x ⟨request, hx⟩
    obtain ⟨-, challenge, -, -, -, -, -, happroved⟩ := hν.cleared x request hx
    exact ⟨_, happroved⟩
  · obtain ⟨mutation, challenge, time, parsed, hc, verified, hspent, happroved⟩ :=
      hν.cleared _ request (acts.actsIn hpre hu)
    have hrow := toConsumed _ ⟨time, hspent⟩
    rw [Set.mem_ofPred_eq, List.getElem?_map, Option.map_eq_some_iff] at hrow
    obtain ⟨⟨row, now⟩, hnow, rfl⟩ := hrow
    have course := Reaches.onCourse (steps_reaches (P := fun _ _ => True)
      (Schedule.of_forall fun _ _ _ => trivial) hu)
    exact ⟨mutation, challenge, now, parsed, hc, verified, hnow,
      books.accounts.inTime _ (List.mem_of_getElem? hnow), toApproved _ happroved,
      acts.carriesOut course parsed⟩

/-- The permits of the registry are all there, or held by requests that will give them back. -/
theorem permits_kept (h : Reaches (ServiceSystem.step v) P (Service.stopped v w) s) :
    ∃ holders : Set ℕ, (s.world.store.permits : ℕ∞) + holders.encard = v.maxConcurrent ∧
      (∀ k, AsksRegistry s k → k ∈ holders) ∧
      ∀ k ∈ holders, ∃ request q next, s.tasks[k]? = some (.request request, .call (.inr q) next) := by
  obtain ⟨n, ν, μ, hob, hJ⟩ := Reaches.kept h
  refine ⟨{k | (μ k).passage.2.held = true}, hJ.permits, ?_, fun k hk => ?_⟩
  · rintro k ⟨t, asn, publicKey, next, hk⟩
    exact (hob.allowed hk).2.2
  · have hheld : (μ k).passage.2.held = true := hk
    rcases ht : s.tasks[k]? with _ | ⟨t, p⟩
    · rw [hob.resting k (List.getElem?_eq_none_iff.mp ht)] at hheld
      cases hheld
    · cases p with
      | done a =>
        rw [(hob.ended ht).2.1] at hheld
        cases hheld
      | call e next =>
        cases e with
        | inl c =>
          rw [(hob.allowed ht).1] at hheld
          cases hheld
        | inr q =>
          obtain ⟨request, hw⟩ := (hob.allowed ht).1
          obtain rfl := Option.some.inj ((work_of_task hob ht).symm.trans hw)
          exact ⟨request, q, next, rfl⟩

/-- The rows ever inserted for an AS, beyond those of the start, number no more than the challenges
that were consumed for it, and these no more than the challenges that it was given. -/
theorem created_paid (h : Reaches (ServiceSystem.step v) P (Service.stopped v w) s) (asn : UInt32) :
    born s.world.manager.toTables asn ≤ born w.toTables asn + consumed s.world.store asn ∧
      consumed s.world.store asn ≤ s.world.store.issued.countP fun row => row.asn = asn := by
  obtain ⟨n, ν, μ, hob, hJ⟩ := Reaches.kept h
  constructor
  · exact_mod_cast le_self_add.trans (hJ.budget asn)
  · have sub : (s.world.store.consumed.map Prod.fst).Subperm s.world.store.issued :=
      List.subperm_iff_count.mpr fun row => le_trans (Nat.le_add_right _ _) (hJ.accounts.balance row)
    have le := sub.countP_le fun row => row.asn = asn
    rwa [List.countP_map] at le

end Requests

section Sample

/-- Task `k` was the request, and was answered with a peer. -/
def answered (s : Service) (k : ℕ) (request : HttpRequest) : Bool :=
  match s.tasks[k]? with
  | some (.request r, .done (.inl ⟨_, .peer _⟩)) => r = request
  | _ => false

lemma answered_acts {s : Service} {k : ℕ} {request : HttpRequest} (h : answered s k request = true) :
    Acts s k request := by
  unfold answered at h
  split at h
  · rename_i r status response hk
    exact .inr ⟨status, response, of_decide_eq_true h ▸ hk⟩
  · cases h

/-- The second key of the AS, with which a delete was signed. -/
def laterChallenge : Challenge where
  auth :=
    "ssh-ed25519 AAAAC3NzaC1lZDI1NTE5AAAAIHqHYA3wlRY2+DEyd2PsRUK73r/j0CEa3bNM9dWlqc2l"
  signature :=
    "-----BEGIN SSH SIGNATURE-----\n" ++
    "U1NIU0lHAAAAAQAAADMAAAALc3NoLWVkMjU1MTkAAAAgeodgDfCVFjb4MTJ3Y+xFQrvev+\n" ++
    "PQIRrds0z11aWpzaUAAAAEZG40MgAAAAAAAAAGc2hhNTEyAAAAUwAAAAtzc2gtZWQyNTUx\n" ++
    "OQAAAECBBH60WzLLzmKyCN/avdPEwC9MA9h4PEumU2pURb9ACAC1mUYar5wCNJPsXXR2Sy\n" ++
    "vEkstlY80N4rwVCohTxTIB\n-----END SSH SIGNATURE-----"
  nonce := "tMnhQGHC/UU7NnAOOw2gCNshiccRrGKfD1gwiRZOJn0="
  expiresAt := 1750086700

def laterMessage : String :=
  "DN42-AUTOPEER-V3\noperation:delete\nasn:4242421111\npeer_name:r1\n" ++
  "nonce:tMnhQGHC/UU7NnAOOw2gCNshiccRrGKfD1gwiRZOJn0=\nexpires_at:1750086700"

/-- Both keys made one signature each. -/
def laterDeployment : Deployment :=
  { sampleDeployment with
    verify := fun publicKey signature message =>
      if publicKey = laterChallenge.auth ∧ signature = laterChallenge.signature ∧
          message = laterMessage then
        .ok ()
      else ServiceSystem.sampleVerify publicKey signature message }

def laterRequest : HttpRequest := .deletePeer ⟨4242421111, "r1", laterChallenge⟩

/-- A second start after the create, a new challenge, and a delete with it. -/
def laterRun : List ServiceSystem.Label :=
  ServiceSystem.sampleRun ++ (.restart :: manages 0 15 ++
    [.request (.createChallenge 4242421111), .task 1 (.inr (.reads 1750086400)),
      .task 1 (.inr (.generates laterChallenge.nonce)), .task 1 (.inr .ok),
      .task 1 (.inr (.reads 1750086400)), .task 1 (.inr .ok), .task 1 (.inr .ok),
      .request laterRequest, .task 2 (.inr (.reads 1750086700)), .task 2 (.inr .ok),
      .task 2 (.inr .ok), .task 2 (.inr (.reads 1750086700)), .task 2 (.inr .ok),
      .task 2 (.inr (.registry true)), .task 2 (.inr .ok)] ++ manages 2 14)

/-- The requests of both processes act, each with a challenge and an approval of its own. -/
theorem acts_cleared_sample : ∃ (s : Service) (i j i' j' : ℕ) (now now' : Int64),
    steps (ServiceSystem.step laterDeployment) laterRun
      (Service.stopped laterDeployment (emptyWorld [] [] ⟨none, ∅⟩)) = some s ∧
    i ≠ j ∧
    s.world.store.consumed[i]? = some (⟨sampleChallenge.nonce, 4242421111, 1750000300⟩, now) ∧
    s.world.store.consumed[j]? = some (⟨laterChallenge.nonce, 4242421111, 1750086700⟩, now') ∧
    i' ≠ j' ∧ s.world.approved[i']? = some ⟨4242421111, sampleAuth⟩ ∧
    s.world.approved[j']? = some ⟨4242421111, laterChallenge.auth⟩ ∧
    ∃ mutation, Parses laterDeployment laterRequest mutation ∧
      CarriesOut laterDeployment s 2 laterRequest mutation := by
  have first : (steps (ServiceSystem.step laterDeployment) ServiceSystem.sampleRun
      (Service.stopped laterDeployment (emptyWorld [] [] ⟨none, ∅⟩))).map
        (answered · 2 sampleRequest) = some true := by
    decide +kernel
  have second : (steps (ServiceSystem.step laterDeployment) laterRun
      (Service.stopped laterDeployment (emptyWorld [] [] ⟨none, ∅⟩))).map
        (answered · 2 laterRequest) = some true := by
    decide +kernel
  obtain ⟨u, hu, created⟩ := Option.map_eq_some_iff.mp first
  obtain ⟨s, hs, deleted⟩ := Option.map_eq_some_iff.mp second
  have earlier : ServiceSystem.sampleRun <+: laterRun := List.prefix_append ..
  obtain ⟨⟨consumption, approval, injConsumed, injApproved, each⟩, -⟩ := acts_cleared hs
  obtain ⟨-, challenge, now, -, hc, -, hconsumed, -, happroved, -⟩ :=
    each _ u 2 _ earlier hu (answered_acts created)
  obtain ⟨mutation, challenge', now', hm, hc', -, hconsumed', -, happroved', carries⟩ :=
    each _ s 2 _ (List.prefix_refl _) hs (answered_acts deleted)
  cases hc
  cases hc'
  have apart : (restarts ServiceSystem.sampleRun, 2) ≠ (restarts laterRun, 2) := by decide +kernel
  have one : ∃ request, ActsIn laterDeployment (emptyWorld [] [] ⟨none, ∅⟩) laterRun
      (restarts ServiceSystem.sampleRun, 2) request :=
    ⟨_, (answered_acts created).actsIn earlier hu⟩
  have two : ∃ request, ActsIn laterDeployment (emptyWorld [] [] ⟨none, ∅⟩) laterRun
      (restarts laterRun, 2) request :=
    ⟨_, (answered_acts deleted).actsIn (List.prefix_refl _) hs⟩
  exact ⟨s, _, _, _, _, now, now', hs, fun same => apart (injConsumed one two same), hconsumed,
    hconsumed', fun same => apart (injApproved one two same), happroved, happroved', mutation, hm,
    carries⟩

/-- Task `k` was the request, and is about to ask the registry. -/
def asking (s : Service) (k : ℕ) : Bool :=
  match s.tasks[k]? with
  | some (_, .call (.inr (.checkRegistry ..)) _) => true
  | _ => false

lemma asking_asks {s : Service} {k : ℕ} (h : asking s k = true) : AsksRegistry s k := by
  unfold asking at h
  split at h
  · rename_i hk
    exact ⟨_, _, _, _, hk⟩
  · cases h

/-- The create has the only permit while it asks the registry. -/
theorem permits_kept_sample : ∃ (s : Service) (holders : Set ℕ), s.world.store.permits = 0 ∧
    AsksRegistry s 2 ∧ 2 ∈ holders ∧ holders.encard = 1 ∧
    ∀ k ∈ holders, ∃ request q next,
      s.tasks[k]? = some (Work.request request, .call (.inr q) next) := by
  have run : (steps (ServiceSystem.step sampleDeployment) (ServiceSystem.sampleRun.take 23)
      (Service.stopped sampleDeployment (emptyWorld [] [] ⟨none, ∅⟩))).map (fun s =>
        (asking s 2, s.world.store.permits)) = some (true, 0) := by
    decide +kernel
  obtain ⟨s, hs, ends⟩ := Option.map_eq_some_iff.mp run
  obtain ⟨asks, none⟩ := Prod.mk.inj ends
  obtain ⟨holders, conserved, asking, inFlight⟩ := permits_kept
    (steps_reaches (P := fun _ _ => True) (Schedule.of_forall fun _ _ _ => trivial) hs)
  rw [none, Nat.cast_zero, zero_add] at conserved
  exact ⟨s, holders, none, asking_asks asks, asking 2 (asking_asks asks), conserved, inFlight⟩

/-- After the create there is one row, and one challenge paid for it. -/
theorem created_paid_sample : ∃ s : Service, s.world.manager.born.length = 1 ∧
    born s.world.manager.toTables 4242421111 ≤ 0 + consumed s.world.store 4242421111 := by
  have run : (steps (ServiceSystem.step sampleDeployment) ServiceSystem.sampleRun
      (Service.stopped sampleDeployment (emptyWorld [] [] ⟨none, ∅⟩))).map (fun s =>
        s.world.manager.born.length) = some 1 := by
    decide +kernel
  obtain ⟨s, hs, hborn⟩ := Option.map_eq_some_iff.mp run
  exact ⟨s, hborn, (created_paid (steps_reaches (P := fun _ _ => True)
    (Schedule.of_forall fun _ _ _ => trivial) hs) 4242421111).1⟩

end Sample

end Autopeer.ServiceLedger
