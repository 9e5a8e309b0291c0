import Autopeer.ChallengeSystem

/-! Each challenge is used at most once. A task holds an issuance or a consumption after the query
that made it; the table and the histories account for what the tasks hold. -/
namespace Autopeer.SingleUse
open PeerData ProgramTree ProgramPool TransitionRuns ChallengeSystem

inductive Holding
  | idle
  | read (now : Int64)
  | minted (row : NonceRow)
  | spent (row : NonceRow) (now : Int64)

/-- A statement that compares with the clock uses the last reading of its task. -/
def holdingAllowed : Holding → Query → Prop
  | .minted _, _ => False
  | .spent .., .checkRegistry .. => True
  | .spent .., .release => True
  | .spent .., _ => False
  | .read now, .deleteExpired now' => now' = now
  | .read now, .deleteNonce _ now' => now' = now
  | .idle, .deleteExpired _ => False
  | .idle, .deleteNonce .. => False
  | _, _ => True

def holdingNext (m : Holding) : (e : Query) → Result e → Holding
  | .unixTimestamp, time => .read time
  | .insertNonce row, .ok true => .minted row
  | .deleteNonce row now, .ok true => .spent row now
  | _, _ => m

def holding : Discipline Query Result Holding :=
  ⟨.idle, holdingAllowed, fun _ _ _ => True, holdingNext⟩

/-- Neither issued nor consumed yet. -/
def Free (m : Holding) : Prop := m = .idle ∨ ∃ now, m = .read now

lemma free_of_allowed {m : Holding} {e : Query} (ha : holdingAllowed m e)
    (he : ∀ asn key, e ≠ .checkRegistry asn key) (he' : e ≠ .release) : Free m := by
  cases m with
  | idle => exact .inl rfl
  | read now => exact .inr ⟨now, rfl⟩
  | minted row => exact ha.elim
  | spent row now =>
    cases e <;> first | exact ha.elim | exact absurd rfl (he _ _) | exact absurd rfl he'

section Programs

variable {verify : String → String → String → Except PeerError Unit}

lemma free_allowed {m : Holding} {e : Query} (h : Free m)
    (he : ∀ now, e ≠ .deleteExpired now) (he' : ∀ row now, e ≠ .deleteNonce row now) :
    holdingAllowed m e := by
  rcases h with rfl | ⟨now, rfl⟩ <;> cases e <;>
    first | trivial | exact absurd rfl (he _) | exact absurd rfl (he' _ _)

lemma follows_insertNonce {m : Holding} {asn : UInt32} {nonce : String} {expiresAt : Int64}
    (h : Free m) : Follows holding (insertNonce asn nonce expiresAt).run m fun m' r =>
      (r = .ok true → m' = .minted ⟨nonce, asn, expiresAt⟩) ∧ (r ≠ .ok true → Free m') := by
  refine ⟨free_allowed h (by simp) (by simp), fun r _ => ?_⟩
  cases r with
  | error e => exact ⟨by simp, fun _ => h⟩
  | ok _ =>
    refine ⟨free_allowed h (by simp) (by simp), fun now _ => ⟨rfl, fun r _ => ?_⟩⟩
    cases r with
    | error e => exact ⟨by simp, fun _ => .inr ⟨now, rfl⟩⟩
    | ok _ =>
      refine ⟨trivial, fun r _ => ?_⟩
      match r with
      | .error e => exact ⟨by simp, fun _ => .inr ⟨now, rfl⟩⟩
      | .ok false => exact ⟨by simp, fun _ => .inr ⟨now, rfl⟩⟩
      | .ok true => exact ⟨fun _ => rfl, by simp⟩

/-- An issuance holds exactly what it returns. -/
def IssueEnds (asn : UInt32) (m : Holding) (r : Except PeerError (String × Int64)) : Prop :=
  (∀ nonce expiresAt, r = .ok (nonce, expiresAt) → m = .minted ⟨nonce, asn, expiresAt⟩) ∧
    ((∀ v, r ≠ .ok v) → Free m)

lemma follows_tryNonces {asn : UInt32} {expiresAt : Int64} (n : ℕ) {m : Holding} (h : Free m) :
    Follows holding (tryNonces asn expiresAt n).run m (IssueEnds asn) := by
  induction n generalizing m with
  | zero => exact ⟨by simp, fun _ => h⟩
  | succ n ih =>
    refine ⟨free_allowed h (by simp) (by simp), fun nonce _ => ?_⟩
    refine Follows.run_bind (x := insertNonce asn nonce expiresAt) (follows_insertNonce h)
      (fun m' inserted hm => ?_) fun m' e hm => ⟨by simp, fun _ => hm.2 (by simp)⟩
    cases inserted with
    | true =>
      refine ⟨fun nonce' expiresAt' he => ?_, fun hn => absurd rfl (hn _)⟩
      cases he
      exact hm.1 rfl
    | false => exact ih (hm.2 (by simp))

lemma follows_issueChallenge {asn : UInt32} :
    Follows holding (issueChallenge asn).run .idle (IssueEnds asn) :=
  ⟨trivial, fun now _ => follows_tryNonces 4 (.inr ⟨now, rfl⟩)⟩

lemma follows_consumeNonce {m : Holding} {asn : UInt32} {nonce : String} {expiresAt : Int64}
    (h : Free m) : Follows holding (consumeNonce asn nonce expiresAt).run m fun m' r =>
      (r = .ok true → ∃ now, m' = .spent ⟨nonce, asn, expiresAt⟩ now) ∧ (r ≠ .ok true → Free m') := by
  refine ⟨free_allowed h (by simp) (by simp), fun r _ => ?_⟩
  cases r with
  | error e => exact ⟨by simp, fun _ => h⟩
  | ok _ =>
    refine ⟨free_allowed h (by simp) (by simp), fun now _ => ⟨rfl, fun r _ => ?_⟩⟩
    match r with
    | .error e => exact ⟨by simp, fun _ => .inr ⟨now, rfl⟩⟩
    | .ok false => exact ⟨by simp, fun _ => .inr ⟨now, rfl⟩⟩
    | .ok true => exact ⟨fun _ => ⟨now, rfl⟩, by simp⟩

/-- An authorization that ends well has consumed its challenge and verified its signature. -/
def AuthorizeEnds (verify : String → String → String → Except PeerError Unit) (row : NonceRow)
    (publicKey signature message : String) (m : Holding) (r : Except PeerError Unit) : Prop :=
  (r = .ok () → verify publicKey signature message = .ok () ∧ ∃ now, m = .spent row now) ∧
    ∀ row', m ≠ .minted row'

lemma Free.not_minted {m : Holding} (h : Free m) (row : NonceRow) : m ≠ .minted row := by
  rcases h with rfl | ⟨now, rfl⟩ <;> simp

lemma follows_authorizeRequest {asn : UInt32} {publicKey signature nonce message : String}
    {expiresAt : Int64} :
    Follows holding (authorizeRequest verify asn publicKey signature nonce expiresAt message).run .idle
      (AuthorizeEnds verify ⟨nonce, asn, expiresAt⟩ publicKey signature message) := by
  refine ⟨trivial, fun now _ => ?_⟩
  have free : Free (.read now) := .inr ⟨now, rfl⟩
  change Follows holding (ExceptT.run (if expiresAt < now then _ else _)) (.read now) _
  split
  · exact ⟨by simp, free.not_minted⟩
  split
  · exact ⟨by simp, free.not_minted⟩
  rename_i hverify
  refine ⟨trivial, fun permit _ => ?_⟩
  cases permit with
  | false => exact ⟨by simp, free.not_minted⟩
  | true =>
    refine follows_bind.mpr (Follows.run_bind (x := consumeNonce asn nonce expiresAt)
      (follows_consumeNonce free) (fun m' consumed hm => ?_) fun m' e hm => ?_)
    · cases consumed with
      | false =>
        have hfree := hm.2 (by simp)
        exact ⟨free_allowed hfree (by simp) (by simp), fun _ _ => ⟨by simp, hfree.not_minted⟩⟩
      | true =>
        obtain ⟨at', rfl⟩ := hm.1 rfl
        refine ⟨trivial, fun r _ => ?_⟩
        match r with
        | .error e => exact ⟨trivial, fun _ _ => ⟨by simp, by simp [holdingNext, holding]⟩⟩
        | .ok false => exact ⟨trivial, fun _ _ => ⟨by simp, by simp [holdingNext, holding]⟩⟩
        | .ok true =>
          exact ⟨trivial, fun _ _ => ⟨fun _ => ⟨hverify, at', rfl⟩, by simp [holdingNext, holding]⟩⟩
    · have hfree := hm.2 (by simp)
      exact ⟨free_allowed hfree (by simp) (by simp), fun _ _ => ⟨by simp, hfree.not_minted⟩⟩

/-- What a request holds when it has ended. -/
def Ends (verify : String → String → String → Except PeerError Unit) :
    Request → Holding → Response → Prop
  | .issueChallenge asn, m, .issued r => IssueEnds asn m r
  | .authorizeRequest asn publicKey signature nonce expiresAt message, m, .authorized r =>
    AuthorizeEnds verify ⟨nonce, asn, expiresAt⟩ publicKey signature message m r
  | _, _, _ => False

lemma follows_program (request : Request) :
    Follows holding (program verify request) .idle (Ends verify request) := by
  cases request with
  | issueChallenge asn => exact follows_bind.mpr follows_issueChallenge
  | authorizeRequest asn publicKey signature nonce expiresAt message =>
    exact follows_bind.mpr follows_authorizeRequest

end Programs

section Table
variable {w : Store} {row x : NonceRow} {now : Int64}

/-- How often the challenge was consumed. -/
def uses (w : Store) (row : NonceRow) : ℕ := (w.consumed.map Prod.fst).count row

/-- The primary key: no two rows share the nonce. -/
def Keyed (w : Store) : Prop := (w.nonces.map NonceRow.nonce).Nodup

variable (w row) in
lemma insert_cases : w.insert row = (false, w) ∨
    (row.nonce ∉ w.nonces.map NonceRow.nonce ∧
      w.insert row = (true, { w with nonces := w.nonces ++ [row], issued := w.issued ++ [row] })) := by
  unfold Store.insert
  split
  · exact .inl rfl
  · rename_i h
    refine .inr ⟨?_, rfl⟩
    simpa using h

variable (row now) in
/-- A consumption finds no row in time and does nothing, or takes the one row out. -/
lemma consume_cases (hk : Keyed w) : w.consume row now = (false, w) ∨
    (row ∈ w.nonces ∧ now ≤ row.expiresAt ∧ w.consume row now =
      (true, { w with
        nonces := w.nonces.filter (· ≠ row)
        consumed := w.consumed ++ [(row, now)] })) := by
  have hn : w.nonces.Nodup := List.Nodup.of_map _ hk
  by_cases h : row ∈ w.nonces ∧ now ≤ row.expiresAt
  · refine .inr ⟨h.1, h.2, ?_⟩
    have hit : ∀ r : NonceRow, (r = row ∧ r.expiresAt ≥ now) ↔ r = row := fun r =>
      ⟨And.left, fun hr => ⟨hr, hr ▸ h.2⟩⟩
    have one : w.nonces.filter (fun r => r = row) = [row] := by
      have := List.filter_beq (l := w.nonces) row
      rw [List.count_eq_one_of_mem hn h.1] at this
      exact this
    simp only [Store.consume, hit, one]
    simp
  · left
    have hit : ∀ r ∈ w.nonces, ¬(r = row ∧ r.expiresAt ≥ now) := by
      rintro r hr ⟨rfl, ht⟩
      exact h ⟨hr, ht⟩
    have none : w.nonces.filter (fun r => r = row ∧ r.expiresAt ≥ now) = [] :=
      List.filter_eq_nil_iff.mpr fun r hr => by simpa using hit r hr
    have all : w.nonces.filter (fun r => ¬(r = row ∧ r.expiresAt ≥ now)) = w.nonces :=
      List.filter_eq_self.mpr fun r hr => decide_eq_true (hit r hr)
    simp only [Store.consume, none, all]
    simp

lemma Keyed.sublist {l : List NonceRow} (hk : Keyed w) (h : l.Sublist w.nonces) :
    (l.map NonceRow.nonce).Nodup := List.Nodup.sublist (h.map _) hk

lemma count_filter_ne {l : List NonceRow} (hn : l.Nodup) (hm : row ∈ l) :
    (l.filter (· ≠ row)).count x + (if x = row then 1 else 0) = l.count x := by
  split
  · rename_i h
    subst h
    rw [List.count_eq_one_of_mem hn hm, List.count_eq_zero_of_not_mem (by simp)]
  · rename_i h
    rw [List.count_filter (by simpa using h)]
    rfl

end Table

section Counting

lemma encard_positions {α : Type} [DecidableEq α] (l : List α) (x : α) :
    {k : ℕ | l[k]? = some x}.encard = l.count x := by
  induction l using List.reverseRecOn with
  | nil => simp
  | append_singleton l a ih =>
    have outside : l.length ∉ {k : ℕ | l[k]? = some x} := by simp
    have split : {k : ℕ | (l ++ [a])[k]? = some x} =
        if a = x then insert l.length {k : ℕ | l[k]? = some x} else {k : ℕ | l[k]? = some x} := by
      ext k
      rcases Nat.lt_trichotomy k l.length with hk | rfl | hk
      · split <;> simp [List.getElem?_append_left hk, hk.ne]
      · split <;> simp_all
      · have hlen : (l ++ [a]).length ≤ k := by simpa using hk
        split <;> simp [List.getElem?_eq_none hlen, List.getElem?_eq_none hk.le, hk.ne']
    rw [split, List.count_append, List.count_singleton]
    by_cases hax : a = x
    · simp [hax, Set.encard_insert_of_notMem outside, ih]
    · simp [hax, ih]

/-- Classes of indices that are no larger than their partners have one injection into them. -/
lemma exists_assignment {κ ι : Type} {A : κ → Set ι} {B : κ → Set ℕ} (finite : ∀ k, (A k).Finite)
    (le : ∀ k, (A k).encard ≤ (B k).encard) (hA : ∀ i k k', i ∈ A k → i ∈ A k' → k = k')
    (hB : ∀ i k k', i ∈ B k → i ∈ B k' → k = k') :
    ∃ f : ι → ℕ, (∀ k, Set.MapsTo f (A k) (B k)) ∧ Set.InjOn f {i | ∃ k, i ∈ A k} := by
  classical
  choose g maps inj using fun k => (finite k).exists_injOn_of_encard_le (le k)
  let f : ι → ℕ := fun i => if h : ∃ k, i ∈ A k then g h.choose i else 0
  have hf : ∀ {i k}, i ∈ A k → f i = g k i := by
    intro i k hi
    have h : ∃ k, i ∈ A k := ⟨k, hi⟩
    simp only [f, dif_pos h, hA i _ _ h.choose_spec hi]
  refine ⟨f, fun k i hi => ?_, ?_⟩
  · rw [hf hi]
    exact maps k hi
  · rintro i ⟨k, hi⟩ j ⟨k', hj⟩ hij
    rw [hf hi, hf hj] at hij
    obtain rfl := hB _ k k' (maps k hi) (hij ▸ maps k' hj)
    exact inj k hi hj hij

end Counting

section Invariant
variable {ι : Type} [DecidableEq ι] {w w' : Store} {μ : ι → Holding} {i : ι} {e : Query} {r : Result e}
  {o : Event}

/-- The histories count what the tasks hold, or more where a consumption was not reported, and no
challenge was consumed or is left more often than it was issued. -/
structure Accounts {ι : Type} (w : Store) (μ : ι → Holding) : Prop where
  keyed : Keyed w
  minted : ∀ row, {i | μ i = .minted row}.encard = w.issued.count row
  spent : ∀ row, {i | ∃ now, μ i = .spent row now}.encard ≤ uses w row
  balance : ∀ row, uses w row + w.nonces.count row ≤ w.issued.count row
  inTime : ∀ x ∈ w.consumed, x.2 ≤ x.1.expiresAt

/-- A step that issues and consumes nothing; rows may be cleaned up. -/
lemma Accounts.quiet (h : Accounts w μ) {m : Holding} (hn : w'.nonces.Sublist w.nonces)
    (hi : w'.issued = w.issued) (hc : w'.consumed = w.consumed)
    (hm : ∀ row, m = .minted row ↔ μ i = .minted row)
    (hs : ∀ row now, m = .spent row now ↔ μ i = .spent row now) :
    Accounts w' (Function.update μ i m) where
  keyed := h.keyed.sublist hn
  minted := fun row => by
    rw [encard_same μ (p := fun x => x = .minted row) (hm row), h.minted, hi]
  spent := fun row => by
    rw [encard_same μ (i := i) (m := m) (p := fun x => ∃ now, x = .spent row now)
      (exists_congr (hs row)), uses, hc]
    exact h.spent row
  balance := fun row => by
    have := h.balance row
    have := hn.count_le row
    simp only [uses, hi, hc] at *
    omega
  inTime := hc ▸ h.inTime

lemma Accounts.issue (h : Accounts w μ) {row : NonceRow} (hfree : Free (μ i))
    (hnew : row.nonce ∉ w.nonces.map NonceRow.nonce) :
    Accounts { w with nonces := w.nonces ++ [row], issued := w.issued ++ [row] }
      (Function.update μ i (.minted row)) where
  keyed := by
    change ((w.nonces ++ [row]).map NonceRow.nonce).Nodup
    rw [List.map_append]
    refine List.Nodup.append h.keyed (List.nodup_singleton _) ?_
    simpa [List.disjoint_singleton] using hnew
  minted := fun x => by
    by_cases hx : row = x
    · subst hx
      rw [encard_new μ (p := fun y => y = .minted row) (hfree.not_minted row) rfl, h.minted]
      simp
    · rw [encard_same μ (p := fun y => y = .minted x), h.minted]
      · simp [List.count_append, hx]
      · exact ⟨fun hm => absurd (Holding.minted.inj hm) hx, fun hm => absurd hm (hfree.not_minted x)⟩
  spent := fun x => by
    rw [encard_same μ (p := fun y => ∃ now, y = .spent x now)]
    · exact h.spent x
    · constructor
      · rintro ⟨now, hm⟩
        cases hm
      · rintro ⟨now, hm⟩
        rcases hfree with hf | ⟨t, hf⟩ <;> rw [hf] at hm <;> cases hm
  balance := fun x => by
    have := h.balance x
    simp only [uses, List.count_append] at *
    omega
  inTime := h.inTime

omit [DecidableEq ι] in
/-- The row is consumed, whether its task learns of it or not. -/
lemma Accounts.take (h : Accounts w μ) {row : NonceRow} {now : Int64} (hmem : row ∈ w.nonces)
    (ht : now ≤ row.expiresAt) :
    Accounts { w with nonces := w.nonces.filter (· ≠ row), consumed := w.consumed ++ [(row, now)] }
      μ where
  keyed := h.keyed.sublist List.filter_sublist
  minted := h.minted
  spent := fun x => by
    have more : uses w x ≤ ((w.consumed ++ [(row, now)]).map Prod.fst).count x := by
      rw [List.map_append, List.count_append]
      exact Nat.le_add_right _ _
    exact (h.spent x).trans (by exact_mod_cast more)
  balance := fun x => by
    have hb := h.balance x
    have hc := count_filter_ne (x := x) (List.Nodup.of_map _ h.keyed) hmem
    simp only [uses, List.map_append, List.map_cons, List.map_nil, List.count_append,
      List.count_singleton, beq_iff_eq] at hb ⊢
    by_cases hx : x = row
    · subst hx
      simp only [↓reduceIte] at hc ⊢
      omega
    · simp only [hx, Ne.symm hx, ↓reduceIte] at hc ⊢
      omega
  inTime := fun x hx => by
    rcases List.mem_append.mp hx with hx | hx
    · exact h.inTime x hx
    · rw [List.mem_singleton.mp hx]
      exact ht

lemma Accounts.consume (h : Accounts w μ) {row : NonceRow} {now : Int64} (hfree : Free (μ i))
    (hmem : row ∈ w.nonces) (ht : now ≤ row.expiresAt) :
    Accounts { w with nonces := w.nonces.filter (· ≠ row), consumed := w.consumed ++ [(row, now)] }
      (Function.update μ i (.spent row now)) where
  keyed := (h.take hmem ht).keyed
  minted := fun x => by
    rw [encard_same μ (p := fun y => y = .minted x), h.minted]
    constructor
    · intro hm
      cases hm
    · exact fun hm => absurd hm (hfree.not_minted x)
  spent := fun x => by
    have hnot : ¬∃ now, μ i = .spent x now := by
      rintro ⟨t, hm⟩
      rcases hfree with hf | ⟨t', hf⟩ <;> rw [hf] at hm <;> cases hm
    by_cases hx : row = x
    · subst hx
      rw [encard_new μ (p := fun y => ∃ now, y = .spent row now) hnot ⟨now, rfl⟩]
      refine (add_le_add_left (h.spent row) 1).trans (le_of_eq ?_)
      simp [uses]
    · rw [encard_same μ (p := fun y => ∃ now, y = .spent x now)]
      · exact (h.take hmem ht).spent x
      · constructor
        · rintro ⟨t, hm⟩
          exact absurd (Holding.spent.inj hm).1 hx
        · exact fun hm => absurd hm hnot
  balance := (h.take hmem ht).balance
  inTime := (h.take hmem ht).inTime

lemma Free.not_spent {m : Holding} (h : Free m) (row : NonceRow) (now : Int64) :
    m ≠ .spent row now := by
  rcases h with rfl | ⟨t, rfl⟩ <;> simp

/-- Only an insertion and a deletion of one row touch the histories. -/
lemma exec_quiet (hx : exec o e w = some (r, w')) (hi : ∀ row, e ≠ .insertNonce row)
    (hd : ∀ row now, e ≠ .deleteNonce row now) :
    w'.nonces.Sublist w.nonces ∧ w'.issued = w.issued ∧ w'.consumed = w.consumed := by
  cases e with
  | insertNonce row => exact absurd rfl (hi row)
  | deleteNonce row now => exact absurd rfl (hd row now)
  | deleteExpired now =>
    cases o <;> cases hx
    · exact ⟨List.filter_sublist, rfl, rfl⟩
    · exact ⟨.refl _, rfl, rfl⟩
    · exact ⟨List.filter_sublist, rfl, rfl⟩
  | tryAcquire =>
    cases o with
    | ok =>
      rw [exec] at hx
      split at hx <;> cases hx <;> exact ⟨.refl _, rfl, rfl⟩
    | _ => cases hx
  | _ => cases o <;> cases hx <;> exact ⟨.refl _, rfl, rfl⟩

lemma Accounts.same (h : Accounts w μ) (hn : w'.nonces.Sublist w.nonces)
    (hi : w'.issued = w.issued) (hc : w'.consumed = w.consumed) :
    Accounts w' (Function.update μ i (μ i)) :=
  h.quiet hn hi hc (fun _ => Iff.rfl) fun _ _ => Iff.rfl

lemma Accounts.step (h : Accounts w μ) (ha : holdingAllowed (μ i) e)
    (hx : exec o e w = some (r, w')) : Accounts w' (Function.update μ i (holdingNext (μ i) e r)) := by
  have free := free_of_allowed ha
  cases e with
  | unixTimestamp =>
    obtain ⟨hn, hi, hc⟩ := exec_quiet hx (by simp) (by simp)
    have hf := free (by simp) (by simp)
    refine h.quiet hn hi hc (fun row => ?_) fun row now => ?_
    · simp [holdingNext, hf.not_minted row]
    · simp [holdingNext, hf.not_spent row now]
  | insertNonce row =>
    have hf := free (by simp) (by simp)
    cases o with
    | ok =>
      cases hx
      rcases insert_cases w row with hr | ⟨hnew, hr⟩ <;> rw [hr]
      · exact h.same (.refl _) rfl rfl
      · exact h.issue hf hnew
    | fails error =>
      cases hx
      exact h.same (.refl _) rfl rfl
    | _ => cases hx
  | deleteNonce row now =>
    have hf := free (by simp) (by simp)
    cases o with
    | ok =>
      cases hx
      rcases consume_cases row now h.keyed with hr | ⟨hmem, ht, hr⟩ <;> rw [hr]
      · exact h.same (.refl _) rfl rfl
      · exact h.consume hf hmem ht
    | fails error =>
      cases hx
      exact h.same (.refl _) rfl rfl
    | late error =>
      cases hx
      have untold : Function.update μ i (holdingNext (μ i) (.deleteNonce row now) (.error error)) =
          μ := Function.update_eq_self i μ
      rw [untold]
      rcases consume_cases row now h.keyed with hr | ⟨hmem, ht, hr⟩ <;> rw [hr]
      · exact h
      · exact h.take hmem ht
    | _ => cases hx
  | _ =>
    obtain ⟨hn, hi, hc⟩ := exec_quiet hx (by simp) (by simp)
    exact h.same hn hi hc

/-- A challenge in time was consumed or is still in the table, and no cleanup is ahead of time. -/
structure Lasting {ι : Type} (w : Store) (μ : ι → Holding) : Prop where
  read : ∀ i now, μ i = .read now → now ≤ w.clock
  left : ∀ row, w.clock ≤ row.expiresAt → w.issued.count row = uses w row + w.nonces.count row

lemma Lasting.quiet (h : Lasting w μ) {m : Holding} (hn : w'.nonces = w.nonces)
    (hi : w'.issued = w.issued) (hc : w'.consumed = w.consumed) (ht : w.clock ≤ w'.clock)
    (hm : ∀ now, m = .read now → now ≤ w'.clock) : Lasting w' (Function.update μ i m) where
  read := fun j now hj => by
    rcases eq_or_ne j i with rfl | hji
    · exact hm now (by simpa using hj)
    · rw [Function.update_of_ne hji] at hj
      exact Int64.le_trans (h.read j now hj) ht
  left := fun row hrow => by
    have := h.left row (Int64.le_trans ht hrow)
    simpa only [uses, hn, hi, hc] using this

lemma Lasting.cleaned (h : Lasting w μ) {now : Int64} (hm : μ i = .read now) :
    Lasting (w.removeExpired now) (Function.update μ i (μ i)) where
  read := by simpa [Store.removeExpired] using h.read
  left := fun row hrow => by
    rw [Store.removeExpired, List.count_filter]
    · exact h.left row hrow
    · simpa using Int64.le_trans (h.read i now hm) hrow

lemma Lasting.take (h : Lasting w μ) (hk : Keyed w) {row : NonceRow} {now : Int64} {m : Holding}
    (hmem : row ∈ w.nonces) (hm : ∀ t, m = .read t → t ≤ w.clock) :
    Lasting { w with nonces := w.nonces.filter (· ≠ row), consumed := w.consumed ++ [(row, now)] }
      (Function.update μ i m) where
  read := fun j t hj => by
    rcases eq_or_ne j i with rfl | hji
    · exact hm t (by simpa using hj)
    · rw [Function.update_of_ne hji] at hj
      exact h.read j t hj
  left := fun x hrow => by
    have hleft := h.left x hrow
    have hc := count_filter_ne (x := x) (List.Nodup.of_map _ hk) hmem
    simp only [uses, List.map_append, List.map_cons, List.map_nil, List.count_append,
      List.count_singleton, beq_iff_eq] at hleft ⊢
    by_cases hxr : x = row
    · subst hxr
      simp only [↓reduceIte] at hc ⊢
      omega
    · simp only [hxr, Ne.symm hxr, ↓reduceIte] at hc ⊢
      omega

/-- One statement under a clock that does not go back. -/
lemma Lasting.step (h : Lasting w μ) (hk : Keyed w) (ha : holdingAllowed (μ i) e)
    (hclock : ∀ time, o = .reads time → w.clock ≤ time) (hx : exec o e w = some (r, w')) :
    Lasting w' (Function.update μ i (holdingNext (μ i) e r)) := by
  have free := free_of_allowed ha
  have read : ∀ {u : Store}, u.clock = w.clock → ∀ now, μ i = .read now → now ≤ u.clock :=
    fun hu now hm => hu ▸ h.read i now hm
  cases e with
  | unixTimestamp =>
    cases o with
    | reads time =>
      cases hx
      refine h.quiet rfl rfl rfl (hclock _ rfl) fun now hm => ?_
      cases hm
      exact Int64.le_refl _
    | _ => cases hx
  | deleteExpired now =>
    have hm : μ i = .read now := by
      rcases free (by simp) (by simp) with hm | ⟨now', hm⟩ <;> rw [hm] at ha ⊢
      · exact ha.elim
      · rw [ha]
    cases o with
    | ok =>
      cases hx
      exact h.cleaned hm
    | fails error =>
      cases hx
      exact h.quiet rfl rfl rfl (Int64.le_refl _) (read rfl)
    | late error =>
      cases hx
      exact h.cleaned hm
    | _ => cases hx
  | insertNonce row =>
    cases o with
    | ok =>
      cases hx
      rcases insert_cases w row with hr | ⟨hnew, hr⟩ <;> rw [hr]
      · exact h.quiet rfl rfl rfl (Int64.le_refl _) (read rfl)
      · refine ⟨fun j now hj => ?_, fun x hrow => ?_⟩
        · rcases eq_or_ne j i with rfl | hji
          · simp [holdingNext] at hj
          · rw [Function.update_of_ne hji] at hj
            exact h.read j now hj
        · have := h.left x hrow
          simp only [uses, List.count_append] at this ⊢
          omega
    | fails error =>
      cases hx
      exact h.quiet rfl rfl rfl (Int64.le_refl _) (read rfl)
    | _ => cases hx
  | deleteNonce row now =>
    cases o with
    | ok =>
      cases hx
      rcases consume_cases row now hk with hr | ⟨hmem, ht, hr⟩ <;> rw [hr]
      · exact h.quiet rfl rfl rfl (Int64.le_refl _) (read rfl)
      · exact h.take hk hmem fun t ht => by simp [holdingNext] at ht
    | fails error =>
      cases hx
      exact h.quiet rfl rfl rfl (Int64.le_refl _) (read rfl)
    | late error =>
      cases hx
      rcases consume_cases row now hk with hr | ⟨hmem, ht, hr⟩ <;> rw [hr]
      · exact h.quiet rfl rfl rfl (Int64.le_refl _) (read rfl)
      · exact h.take hk hmem (read rfl)
    | _ => cases hx
  | tryAcquire =>
    cases o with
    | ok =>
      rw [exec] at hx
      split at hx <;> cases hx <;> exact h.quiet rfl rfl rfl (Int64.le_refl _) (read rfl)
    | _ => cases hx
  | _ => cases o <;> cases hx <;> exact h.quiet rfl rfl rfl (Int64.le_refl _) (read rfl)

end Invariant

section System
variable {verify : String → String → String → Except PeerError Unit} {s s' t : System} {l : Label}

/-- A call or a start keeps what every call of its task keeps. -/
lemma keeps_step {J : Store → (ℕ → Holding) → Prop} (hs : step verify l s = some s')
    (call : ∀ {i o e w' μ} {r : Result e}, l = .task i o → J s.world μ → holdingAllowed (μ i) e →
      exec o e s.world = some (r, w') → J w' (Function.update μ i (holdingNext (μ i) e r)))
    (h : Keeps holding (Ends verify) J s) : Keeps holding (Ends verify) J s' := by
  cases l with
  | task i o =>
    refine h.stepTask hs fun μ t e next r w' _ hJ ha hx => ?_
    exact ⟨trivial, call rfl hJ ha hx⟩
  | start request =>
    obtain rfl := Option.some.inj hs
    obtain ⟨μ, hob, hJ⟩ := h
    refine ⟨_, hob.spawn (m := .idle) (follows_program request), ?_⟩
    rwa [Function.update_eq_self_iff.mpr (hob.resting _ le_rfl).symm]

lemma accounts_initial {permits : ℕ} {clock : Int64} :
    Accounts (initial permits clock).world (fun _ : ℕ => .idle) where
  keyed := List.nodup_nil
  minted := fun row => by simp [initial]
  spent := fun row => by simp [initial, uses]
  balance := fun row => by simp [initial, uses]
  inTime := by simp [initial]

lemma Reaches.accounts {P : System → Label → Prop} {permits : ℕ} {clock : Int64}
    (h : Reaches (step verify) P (initial permits clock) s) :
    Keeps holding (Ends verify) Accounts s :=
  TransitionRuns.Reaches.invariant h ⟨_, .nil, accounts_initial⟩ fun _ _ _ hJ _ hs =>
    keeps_step hs (fun _ hw ha hx => hw.step ha hx) hJ

lemma Reaches.lasting {permits : ℕ} {clock : Int64}
    (h : Reaches (step verify) Advances (initial permits clock) s) :
    Keeps holding (Ends verify) (fun w μ => Accounts w μ ∧ Lasting w μ) s := by
  refine TransitionRuns.Reaches.invariant h
    ⟨_, .nil, accounts_initial, by simp [holding], by simp [initial, uses]⟩ fun u l _ hJ hm hs => ?_
  refine keeps_step hs (fun hl hw ha hx => ⟨hw.1.step ha hx, hw.2.step hw.1.keyed ha ?_ hx⟩) hJ
  rintro time rfl
  subst hl
  exact hm

variable {μ : ℕ → Holding} {i : ℕ} {row : NonceRow} {publicKey signature message : String}

lemma minted_issued (hob : Obeys holding (Ends verify) μ s) :
    μ i = .minted row ↔ Issued s i row := by
  constructor
  · intro hm
    rcases hi : s.tasks[i]? with _ | ⟨request, p⟩
    · have := hob.resting i (List.getElem?_eq_none_iff.mp hi)
      rw [hm] at this
      cases this
    · cases p with
      | call e next =>
        have := hob.allowed hi
        rw [hm] at this
        exact this.elim
      | done a =>
        have he := hob.ended hi
        rw [hm] at he
        cases request with
        | authorizeRequest =>
          cases a with
          | issued r => exact he.elim
          | authorized r => exact absurd rfl (he.2 row)
        | issueChallenge asn =>
          cases a with
          | authorized r => exact he.elim
          | issued r =>
            by_cases hr : ∃ v, r = .ok v
            · obtain ⟨⟨nonce, expiresAt⟩, rfl⟩ := hr
              obtain rfl := Holding.minted.inj (he.1 nonce expiresAt rfl)
              exact hi
            · exact absurd rfl ((he.2 (not_exists.mp hr)).not_minted row)
  · intro hi
    exact (hob.ended hi).1 _ _ rfl

lemma authorized_spent (hob : Obeys holding (Ends verify) μ s)
    (ha : Authorized s i row publicKey signature message) :
    verify publicKey signature message = .ok () ∧ ∃ now, μ i = .spent row now :=
  (hob.ended ha).1 rfl

lemma Issued.row_eq {row' : NonceRow} (h : Issued s i row) (h' : Issued s i row') : row = row' := by
  cases row
  cases row'
  simp_all [Issued]

lemma Authorized.row_eq {row' : NonceRow} {publicKey' signature' message' : String}
    (h : Authorized s i row publicKey signature message)
    (h' : Authorized s i row' publicKey' signature' message') : row = row' := by
  cases row
  cases row'
  simp_all [Authorized]

lemma authorized_subset (hob : Obeys holding (Ends verify) μ s) :
    {i | ∃ publicKey signature message, Authorized s i row publicKey signature message} ⊆
      {i | ∃ now, μ i = .spent row now} := by
  rintro i ⟨publicKey, signature, message, ha⟩
  exact (authorized_spent hob ha).2

lemma authorized_finite :
    {i | ∃ publicKey signature message, Authorized s i row publicKey signature message}.Finite := by
  refine (Set.finite_lt_nat s.tasks.length).subset ?_
  rintro i ⟨_, _, _, ha⟩
  exact (List.getElem?_eq_some_iff.mp ha).1

/-- A challenge is used at most as often as it was handed out, by the parties it was handed out to
and in time, whatever the calls are and however their statements interleave. While the clock does
not go back, it stays usable until it is used or expires. -/
theorem single_use (verify : String → String → String → Except PeerError Unit) (permits : ℕ)
    (clock : Int64) (s : System) :
    (Reaches (step verify) (fun _ _ => True) (initial permits clock) s →
      (∀ nonce : String,
        {i | ∃ row publicKey signature message,
          row.nonce = nonce ∧ Authorized s i row publicKey signature message}.encard ≤
        {i | ∃ row, row.nonce = nonce ∧ Issued s i row}.encard) ∧
      ∃ issuance consumption : ℕ → ℕ,
        let authorized := {i | ∃ row publicKey signature message,
          Authorized s i row publicKey signature message}
        Set.InjOn issuance authorized ∧ Set.InjOn consumption authorized ∧
        ∀ i row publicKey signature message, Authorized s i row publicKey signature message →
          Issued s (issuance i) row ∧ verify publicKey signature message = .ok () ∧
          ∃ now, s.world.consumed[consumption i]? = some (row, now) ∧ now ≤ row.expiresAt) ∧
    (Reaches (step verify) Advances (initial permits clock) s →
      ∀ row, (uses s.world row : ℕ∞) < {i | Issued s i row}.encard →
        s.world.clock ≤ row.expiresAt → row ∈ s.world.nonces) := by
  constructor
  · intro h
    obtain ⟨μ, hob, hw⟩ := Reaches.accounts h
    let A (row : NonceRow) :=
      {i | ∃ publicKey signature message, Authorized s i row publicKey signature message}
    have used : ∀ row, (A row).encard ≤ uses s.world row := fun row =>
      (Set.encard_le_encard (authorized_subset hob)).trans (hw.spent row)
    have issued : ∀ row, {i | Issued s i row}.encard = s.world.issued.count row := fun row => by
      simp only [← minted_issued hob, hw.minted]
    have sameRow : ∀ i row row', i ∈ A row → i ∈ A row' → row = row' := by
      rintro i row row' ⟨_, _, _, ha⟩ ⟨_, _, _, ha'⟩
      exact Authorized.row_eq ha ha'
    obtain ⟨issuance, toIssued, injIssued⟩ := exists_assignment (A := A)
      (B := fun row => {i | Issued s i row}) (fun _ => authorized_finite)
      (fun row => (used row).trans (by
        rw [issued]
        have := hw.balance row
        exact_mod_cast (by omega : uses s.world row ≤ s.world.issued.count row)))
      sameRow fun _ _ _ => Issued.row_eq
    obtain ⟨consumption, toConsumed, injConsumed⟩ := exists_assignment (A := A)
      (B := fun row => {k : ℕ | (s.world.consumed.map Prod.fst)[k]? = some row})
      (fun _ => authorized_finite)
      (fun row => (used row).trans (encard_positions _ row).ge) sameRow
      fun k row row' hk hk' => Option.some.inj (hk.symm.trans hk')
    refine ⟨fun nonce => ?_, issuance, consumption, injIssued, injConsumed, ?_⟩
    · refine Set.encard_le_encard_of_injOn (f := issuance) ?_ (injIssued.mono ?_)
      · rintro i ⟨row, publicKey, signature, message, hn, ha⟩
        exact ⟨row, hn, toIssued row ⟨publicKey, signature, message, ha⟩⟩
      · rintro i ⟨row, publicKey, signature, message, hn, ha⟩
        exact ⟨row, publicKey, signature, message, ha⟩
    · intro i row publicKey signature message ha
      have hi : i ∈ A row := ⟨publicKey, signature, message, ha⟩
      have hk : (s.world.consumed.map Prod.fst)[consumption i]? = some row := toConsumed row hi
      rw [List.getElem?_map, Option.map_eq_some_iff] at hk
      obtain ⟨⟨row', now⟩, hk, rfl⟩ := hk
      exact ⟨toIssued row' hi, (authorized_spent hob ha).1, now, hk,
        hw.inTime _ (List.mem_of_getElem? hk)⟩
  · intro h row hlt hclock
    obtain ⟨μ, hob, hw, hl⟩ := Reaches.lasting h
    simp only [← minted_issued hob, hw.minted] at hlt
    have hlt : uses s.world row < s.world.issued.count row := by exact_mod_cast hlt
    have := hl.left row hclock
    exact List.count_pos_iff.mp (by omega)

end System

section Sample

def sampleNonce : String := "8WjuTR6NeEQ0HWKvIJohPOBKmojGgSWhRZnnxXKDnsU="

def sampleKey : String :=
  "ssh-ed25519 AAAAC3NzaC1lZDI1NTE5AAAAIIwhtHeEr8DT2BGjKpysJj6+uc1ZpJJXIKwvW42NUi1X"

def sampleSignature : String :=
  "-----BEGIN SSH SIGNATURE-----\n" ++
  "U1NIU0lHAAAAAQAAADMAAAALc3NoLWVkMjU1MTkAAAAgjCG0d4SvwNPYEaMqnKwmPr65zV\n" ++
  "mkklcgrC9bjY1SLVcAAAAEZG40MgAAAAAAAAAGc2hhNTEyAAAAUwAAAAtzc2gtZWQyNTUx\n" ++
  "OQAAAEBoP1NXpzzBeYzx7pTsaPwJ9AGRcAeNSlQJNpY+DDbcHX2tC5K11++eixYejqQXWD\n" ++
  "ZVjduGVn5H0syq8hdVeOgF\n-----END SSH SIGNATURE-----"

def sampleMessage : String :=
  "DN42-AUTOPEER-V3\noperation:delete\nasn:4242421111\npeer_name:r1\n" ++
  "nonce:8WjuTR6NeEQ0HWKvIJohPOBKmojGgSWhRZnnxXKDnsU=\nexpires_at:1750000300"

/-- The one signature that was made with the key. -/
def sampleVerify (publicKey signature message : String) : Except PeerError Unit :=
  if publicKey = sampleKey ∧ signature = sampleSignature ∧ message = sampleMessage then .ok ()
  else .error (.signatureVerificationFailed "Signature verification failed: cryptographic error")

/-- Two challenges are issued, and the first is used. -/
def sampleRun : List Label :=
  [.start (.issueChallenge 4242421111), .task 0 (.reads 1750000000), .task 0 (.generates sampleNonce),
    .task 0 .ok, .task 0 (.reads 1750000000), .task 0 .ok, .task 0 .ok,
    .start (.issueChallenge 4242422222), .task 1 (.reads 1750000100),
    .task 1 (.generates "M8IwHQeKogxc4khlBMhisdRcp908OncvYE49QKwrQoI="),
    .task 1 .ok, .task 1 (.reads 1750000101), .task 1 .ok, .task 1 .ok,
    .start (.authorizeRequest 4242421111 sampleKey sampleSignature sampleNonce 1750000300
      sampleMessage),
    .task 2 (.reads 1750000300), .task 2 .ok, .task 2 .ok, .task 2 (.reads 1750000300), .task 2 .ok,
    .task 2 (.registry true), .task 2 .ok]

theorem single_use_sample :
    let first : NonceRow := ⟨sampleNonce, 4242421111, 1750000300⟩
    let second : NonceRow := ⟨"M8IwHQeKogxc4khlBMhisdRcp908OncvYE49QKwrQoI=", 4242422222, 1750000400⟩
    ∃ s : System, Authorized s 2 first sampleKey sampleSignature sampleMessage ∧
      {i | ∃ row publicKey signature message,
          row.nonce = sampleNonce ∧ Authorized s i row publicKey signature message}.encard ≤
        {i | ∃ row, row.nonce = sampleNonce ∧ Issued s i row}.encard ∧
      (∃ i, Issued s i first) ∧ second ∈ s.world.nonces := by
  intro first second
  have ends : (steps (guarded (step sampleVerify) Advances) sampleRun (initial 4 0)).map (fun s =>
      decide (Authorized s 2 first sampleKey sampleSignature sampleMessage ∧ Issued s 1 second ∧
        uses s.world second = 0 ∧ s.world.clock ≤ second.expiresAt)) = some true := by
    decide +kernel
  obtain ⟨s, hs, hd⟩ := Option.map_eq_some_iff.mp ends
  obtain ⟨ha, hi, hu, hc⟩ := of_decide_eq_true hd
  have ran := steps_guarded_reaches hs
  obtain ⟨once, lasts⟩ := single_use sampleVerify 4 0 s
  obtain ⟨atMost, issuance, _, _, _, each⟩ := once (ran.mono fun _ _ _ => trivial)
  refine ⟨s, ha, atMost sampleNonce, ⟨_, (each 2 _ _ _ _ ha).1⟩, lasts ran second ?_ hc⟩
  rw [hu]
  exact_mod_cast Set.encard_pos.mpr ⟨1, hi⟩

end Sample

end Autopeer.SingleUse
