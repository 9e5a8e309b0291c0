import Autopeer.ManagerFootprints
import Autopeer.ManagerRules
import Autopeer.PeerRows

/-! The test of a creation: a request for the own AS number goes through the reservation, takes
nothing, and learns what a real reservation would have returned. -/
namespace Autopeer.CreationTest
open Ipv6 PeerData ProgramTree ProgramRuns ManagerWorld ManagerPrograms ManagerFootprints

variable {cfg : Config} {w w' : World}

section NoEffect

/-- The calls of a test. -/
def Harmless : Call → Prop
  | .lock _ | .unlock _ => True
  | .io (.peerExists ..) | .io (.listenPortInUse _) | .io .nextPeerId => True
  | .io (.reservePeer _ test) => test = true
  | _ => False

/-- Only the id sequences and the locks may have moved. -/
def Untouched (w w' : World) : Prop :=
  w' = { w with peerSeq := w'.peerSeq, nextEvent := w'.nextEvent, locks := w'.locks }

lemma Untouched.refl (w : World) : Untouched w w := rfl

lemma Untouched.trans {u v x : World} (h : Untouched u v) (h' : Untouched v x) : Untouched u x := by
  unfold Untouched at h h' ⊢
  rw [h', h]

lemma effect_harmless {c : Io} (hc : Harmless (.io c)) : Untouched w (effect cfg c w).2 := by
  cases c with
  | peerExists asn peerName => rfl
  | listenPortInUse port => rfl
  | nextPeerId =>
    rw [effect]
    split <;> rfl
  | reservePeer peer test =>
    obtain rfl : test = true := hc
    rw [effect]
    split <;> rfl
  | _ => exact hc.elim

lemma exec_harmless {o : Outcome} {e : Call} {r : Answer e} (he : Harmless e)
    (h : exec cfg o e w = some (r, w')) : Untouched w w' := by
  cases e with
  | resolveEndpoint endpoint => exact he.elim
  | lock l =>
    cases o with
    | ok =>
      obtain ⟨-, h⟩ := Option.ite_none_left_eq_some.mp h
      obtain ⟨-, rfl⟩ := Prod.mk.inj (Option.some.inj h)
      rfl
    | _ => cases h
  | unlock l =>
    cases o with
    | ok =>
      obtain ⟨-, rfl⟩ := Prod.mk.inj (Option.some.inj h)
      rfl
    | _ => cases h
  | io c =>
    have heffect := @effect_harmless cfg w _ he
    cases o with
    | ok =>
      obtain ⟨-, rfl⟩ := Prod.mk.inj (Option.some.inj h)
      exact heffect
    | fail error =>
      obtain ⟨-, rfl⟩ := Prod.mk.inj (Option.some.inj h)
      rfl
    | late error =>
      cases c with
      | syncBirdFiles peers forceReload => exact he.elim
      | _ =>
        obtain ⟨-, rfl⟩ := Prod.mk.inj (Option.some.inj h)
        exact heffect
    | half error =>
      cases c with
      | ensureWgInterface ifaceName peerId mtu => exact he.elim
      | _ => cases h
    | birdFails failure error =>
      cases c with
      | syncBirdFiles peers forceReload => exact he.elim
      | _ => cases h
    | resolved address => cases h

lemma calls_createPeer_test {peerName : String} {pubkey : WgPubKey} {endpoint : Option String}
    {linkLocal : Option (Ipv6Addr × Ipv6Addr)} {mtu : Option UInt16} :
    Calls Harmless
      (createPeer cfg cfg.localAsn peerName pubkey endpoint linkLocal mtu).run := by
  refine calls_withLock trivial trivial (Calls.run_bind (calls_io trivial) fun taken => ?_)
  cases taken with
  | true => exact calls_throw _
  | false =>
    refine Calls.run_bind (calls_withLock trivial trivial ?_) fun peer => ?_
    · refine Calls.run_bind (Calls.run_bind (calls_io trivial) fun peerId => ?_) fun peerId => ?_
      · split
        · exact calls_return _
        · exact calls_throw _
      · generalize List.range 10000 = increments
        exact calls_reserveFrom ⟨trivial, fun _ => trivial⟩ fun _ => decide_eq_true rfl
    · rw [if_pos rfl]
      exact calls_return _

/-- Whatever fails, a creation for the own AS number leaves everything as it was. -/
theorem createPeer_test_untouched {peerName : String} {pubkey : WgPubKey}
    {endpoint : Option String} {linkLocal : Option (Ipv6Addr × Ipv6Addr)} {mtu : Option UInt16}
    {r : Except PeerError Peer} (h : Ends (exec cfg) (fun _ _ => True) w
      (createPeer cfg cfg.localAsn peerName pubkey endpoint linkLocal mtu).run r w') :
    Untouched w w' :=
  h.rel calls_createPeer_test Untouched.refl (fun _ _ _ => Untouched.trans)
    fun _ _ _ _ _ he _ hx => exec_harmless he hx

end NoEffect

section Prediction

/-- Calls that meet the outcomes of a script, one after the other. -/
def scripted (cfg : Config) (e : Call) (s : World × List Outcome) :
    Option (Answer e × (World × List Outcome)) :=
  match s.2 with
  | [] => none
  | o :: os => (exec cfg o e s.1).map fun a => (a.1, a.2, os)

lemma exec_of_scripted {e : Call} {a : Answer e} {s s' : World × List Outcome}
    (h : scripted cfg e s = some (a, s')) : ∃ o, True ∧ exec cfg o e s.1 = some (a, s'.1) := by
  obtain ⟨w, os⟩ := s
  cases os with
  | nil => cases h
  | cons o os =>
    obtain ⟨x, hx, he⟩ := Option.map_eq_some_iff.mp h
    cases he
    exact ⟨o, trivial, hx⟩

/-- A test reservation answers as the real one, and where it answers `false` nothing differs. -/
lemma exec_reserve (o : Outcome) (p : Peer) (w : World) :
    (exec cfg o (.io (.reservePeer p true)) w = none ∧
        exec cfg o (.io (.reservePeer p false)) w = none) ∨
      ∃ (r : Except PeerError Bool) (w₁ w₂ : World),
        exec cfg o (.io (.reservePeer p true)) w = some (r, w₁) ∧
        exec cfg o (.io (.reservePeer p false)) w = some (r, w₂) ∧ (r = .ok false → w₁ = w₂) := by
  cases o with
  | ok =>
    by_cases hc : w.conflicts p
    · exact .inr ⟨.ok false, w, w, by simp [exec, effect, hc], by simp [exec, effect, hc],
        fun _ => rfl⟩
    · exact .inr ⟨.ok true, _, _, by simp [exec, effect, hc]; rfl, by simp [exec, effect, hc]; rfl,
        fun h => by cases h⟩
  | fail error => exact .inr ⟨.error error, w, w, rfl, rfl, fun h => by cases h⟩
  | late error => exact .inr ⟨.error error, _, _, rfl, rfl, fun h => by cases h⟩
  | resolved address => exact .inl ⟨rfl, rfl⟩
  | half error => exact .inl ⟨rfl, rfl⟩
  | birdFails failure error => exact .inl ⟨rfl, rfl⟩

lemma runWith_io {c : Io} {s : World × List Outcome} :
    runWith (scripted cfg) (io c).run s = scripted cfg (.io c) s := by
  change (scripted cfg (.io c) s).bind _ = _
  cases scripted cfg (.io c) s <;> rfl

lemma scripted_reserve (p : Peer) (s : World × List Outcome) :
    (scripted cfg (.io (.reservePeer p true)) s = none ∧
        scripted cfg (.io (.reservePeer p false)) s = none) ∨
      ∃ (r : Except PeerError Bool) (s₁ s₂ : World × List Outcome),
        scripted cfg (.io (.reservePeer p true)) s = some (r, s₁) ∧
        scripted cfg (.io (.reservePeer p false)) s = some (r, s₂) ∧ (r = .ok false → s₁ = s₂) := by
  obtain ⟨w, os⟩ := s
  cases os with
  | nil => exact .inl ⟨rfl, rfl⟩
  | cons o os =>
    rcases @exec_reserve cfg o p w with ⟨ht, hf⟩ | ⟨r, w₁, w₂, ht, hf, hsame⟩
    · exact .inl ⟨by simp [scripted, ht], by simp [scripted, hf]⟩
    · exact .inr ⟨r, (w₁, os), (w₂, os), by simp [scripted, ht], by simp [scripted, hf],
        fun h => by rw [hsame h]⟩

/-- The search as a test and the real search, step by step under the same outcomes: up to the
reservation that ends them both they are in the same state. -/
theorem reserveFrom_test {asn : UInt32} {peerName : String} {peerAt : UInt16 → Peer}
    (increments : List ℕ) (s : World × List Outcome) :
    (runWith (scripted cfg) (reserveFrom asn peerName true peerAt increments).run s).map Prod.fst =
      (runWith (scripted cfg) (reserveFrom asn peerName false peerAt increments).run s).map
        Prod.fst := by
  induction increments generalizing s with
  | nil => rfl
  | cons increment increments ih =>
    rw [reserveFrom, reserveFrom, runWith_run_bind, runWith_run_bind]
    cases runWith (scripted cfg) (io (.listenPortInUse (searchPort asn increment))).run s with
    | none => rfl
    | some x =>
      obtain ⟨inUse, s'⟩ := x
      simp only [Option.bind_some]
      cases inUse with
      | error error => rfl
      | ok inUse =>
        cases inUse with
        | true => exact ih s'
        | false =>
          simp only [following, Bool.false_eq_true, if_false]
          rw [runWith_run_bind, runWith_run_bind, runWith_io, runWith_io]
          rcases @scripted_reserve cfg (peerAt (searchPort asn increment)) s' with
            ⟨ht, hf⟩ | ⟨r, s₁, s₂, ht, hf, hsame⟩
          · rw [ht, hf]
            rfl
          · rw [ht, hf]
            simp only [Option.bind_some]
            cases r with
            | error error => rfl
            | ok reserved =>
              cases reserved with
              | true => rfl
              | false =>
                obtain rfl := hsame rfl
                simp only [following, Bool.false_eq_true, if_false]
                rw [runWith_run_bind, runWith_run_bind]
                cases runWith (scripted cfg) (io (.peerExists asn peerName)).run s₁ with
                | none => rfl
                | some y =>
                  obtain ⟨taken, s''⟩ := y
                  simp only [Option.bind_some]
                  cases taken with
                  | error error => rfl
                  | ok taken =>
                    cases taken with
                    | true => rfl
                    | false => exact ih s''

/-- The same of the statement on the rows. -/
lemma reservePeer_rows (p : Peer) (rows : List PeerRows.Row) :
    (PeerRows.reservePeer p true rows).1 = (PeerRows.reservePeer p false rows).1 := by
  unfold PeerRows.reservePeer
  split <;> rfl

end Prediction

/-- A creation for the own AS number has no effect and predicts the reservation: each statement
and the whole search answer as the real ones do, under whatever outcomes. -/
theorem creation_test (cfg : Config) :
    (∀ w peerName pubkey endpoint linkLocal mtu r w', Ends (exec cfg) (fun _ _ => True) w
      (createPeer cfg cfg.localAsn peerName pubkey endpoint linkLocal mtu).run r w' →
      w' = { w with peerSeq := w'.peerSeq, nextEvent := w'.nextEvent, locks := w'.locks }) ∧
    (∀ o p w, (exec cfg o (.io (.reservePeer p true)) w).map Prod.fst =
      (exec cfg o (.io (.reservePeer p false)) w).map Prod.fst) ∧
    (∀ p rows, (PeerRows.reservePeer p true rows).1 = (PeerRows.reservePeer p false rows).1) ∧
    ∀ asn peerName peerAt increments s,
      (runWith (scripted cfg) (reserveFrom asn peerName true peerAt increments).run s).map Prod.fst =
        (runWith (scripted cfg) (reserveFrom asn peerName false peerAt increments).run s).map
          Prod.fst := by
  refine ⟨fun w peerName pubkey endpoint linkLocal mtu r w' h => createPeer_test_untouched h,
    fun o p w => ?_, reservePeer_rows,
    fun asn peerName peerAt increments s => reserveFrom_test increments s⟩
  rcases @exec_reserve cfg o p w with ⟨ht, hf⟩ | ⟨r, w₁, w₂, ht, hf, -⟩
  · rw [ht, hf]
  · rw [ht, hf]
    rfl

section Sample

def testConfig : Config := ⟨4242420000, fun a b => decide (a ≤ b)⟩

/-- Another peer has the first port of the search. -/
def testWorld : World :=
  let row : Peer := { buildPeer 1 4242421111 "r1" ⟨"key"⟩ none
    (asnLinkLocal 4242420000, asnLinkLocal 4242421111) 20000 1420 with status := .active }
  { peers := [row], born := [row], peerSeq := 2, events := [⟨1, "INSERT", row⟩], nextEvent := 2,
    locks := [], ifaces := [], nft := [20000], bird := ⟨some ∅, ∅⟩ }

/-- The test gets the second port of the range; its row and its event are gone, and the ids of both
stay drawn. -/
theorem creation_test_secondPort : ∃ peer w',
    Ends (exec testConfig) (fun _ _ => True) testWorld
      (createPeer testConfig testConfig.localAsn "t" ⟨"key"⟩ none none none).run (.ok peer) w' ∧
    peer.listenPort = 20001 ∧ w' = { testWorld with peerSeq := 3, nextEvent := 3 } := by
  have run : ((runWith (scripted testConfig)
      (createPeer testConfig testConfig.localAsn "t" ⟨"key"⟩ none none none).run
      (testWorld, List.replicate 11 .ok)).map fun x =>
        (x.1.toOption.map Peer.listenPort, x.2.1.peerSeq, x.2.1.nextEvent, x.2.1.locks)) =
      some (some 20001, 3, 3, []) := by
    decide +kernel
  obtain ⟨⟨r, w', rest⟩, hrun, he⟩ := Option.map_eq_some_iff.mp run
  simp only [Prod.mk.injEq] at he
  obtain ⟨hport, hseq, hevent, hlocks⟩ := he
  have h : Ends (exec testConfig) (fun _ _ => True) testWorld _ r w' :=
    runWith_ends Prod.fst (fun e s a s' hs => exec_of_scripted hs) hrun
  have same := (creation_test testConfig).1 _ _ _ _ _ _ _ _ h
  cases r with
  | error error => cases hport
  | ok peer =>
    refine ⟨peer, w', h, Option.some.inj hport, ?_⟩
    rw [same, hseq, hevent, hlocks]
    rfl

end Sample

end Autopeer.CreationTest
