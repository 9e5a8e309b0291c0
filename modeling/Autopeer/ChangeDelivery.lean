import Autopeer.InterleavedRuns
import Autopeer.OperationEffects

/-! No change event is lost. A pass over the queue tries each listed event once, whatever becomes of
the others, and an event leaves the queue only after it was applied. -/
namespace Autopeer.ChangeDelivery
open PeerData ProgramTree ProgramPool TransitionRuns InterleavedRuns
open ManagerWorld ManagerPrograms ManagerSystem ManagerEffects ManagerFootprints

variable {cfg : Config}

section Queue
variable {t u : Tables}

/-- The ids of the events are distinct, and the sequence has passed them. -/
structure EventIds (t : Tables) : Prop where
  nodup : (t.events.map PeerChange.eventId).Nodup
  below : ∀ e ∈ t.events, e.eventId < t.nextEvent

/-- Events were added to the queue, each with an id that the sequence had not given before. -/
def Grown (t u : Tables) : Prop :=
  ∃ added, u.events = t.events ++ added ∧ (added.map PeerChange.eventId).Nodup ∧
    (∀ e ∈ added, t.nextEvent ≤ e.eventId ∧ e.eventId < u.nextEvent) ∧ t.nextEvent ≤ u.nextEvent

lemma EventIds.unique (h : EventIds t) {e f : PeerChange} (he : e ∈ t.events) (hf : f ∈ t.events)
    (hid : e.eventId = f.eventId) : e = f := List.inj_on_of_nodup_map h.nodup he hf hid

lemma grown_of_eq (events : u.events = t.events) (next : u.nextEvent = t.nextEvent) :
    Grown t u := ⟨[], by simpa using events, by simp, by simp, next.ge⟩

lemma Grown.refl (t : Tables) : Grown t t := grown_of_eq rfl rfl

lemma Grown.mem (h : Grown t u) {e : PeerChange} (he : e ∈ t.events) : e ∈ u.events := by
  obtain ⟨added, events, -⟩ := h
  rw [events]
  exact List.mem_append_left _ he

lemma Grown.next (h : Grown t u) : t.nextEvent ≤ u.nextEvent := h.choose_spec.2.2.2

lemma Grown.fresh (h : Grown t u) {e : PeerChange} (he : e ∈ u.events) :
    e ∈ t.events ∨ t.nextEvent ≤ e.eventId := by
  obtain ⟨added, events, -, ids, -⟩ := h
  rw [events, List.mem_append] at he
  exact he.imp_right fun he => (ids e he).1

lemma Grown.trans {v : Tables} (h : Grown t u) (g : Grown u v) : Grown t v := by
  obtain ⟨added, events, nodup, ids, next⟩ := h
  obtain ⟨added', events', nodup', ids', next'⟩ := g
  refine ⟨added ++ added', by rw [events', events, List.append_assoc], ?_, fun e he => ?_,
    next.trans next'⟩
  · rw [List.map_append]
    refine nodup.append nodup' fun n hn hn' => ?_
    obtain ⟨e, he, rfl⟩ := List.mem_map.mp hn
    obtain ⟨e', he', hee⟩ := List.mem_map.mp hn'
    have hlt := (ids e he).2
    have hle := (ids' e' he').1
    omega
  · rcases List.mem_append.mp he with he | he
    · exact ⟨(ids e he).1, (ids e he).2.trans_le next'⟩
    · exact ⟨next.trans (ids' e he).1, (ids' e he).2⟩

lemma EventIds.grown (h : EventIds t) (g : Grown t u) : EventIds u := by
  obtain ⟨added, events, nodup, ids, next⟩ := g
  constructor
  · rw [events, List.map_append]
    refine h.nodup.append nodup fun n hn hn' => ?_
    obtain ⟨e, he, rfl⟩ := List.mem_map.mp hn
    obtain ⟨e', he', hee⟩ := List.mem_map.mp hn'
    have hlt := h.below e he
    have hle := (ids e' he').1
    omega
  · intro e he
    rw [events, List.mem_append] at he
    rcases he with he | he
    · exact (h.below e he).trans_le next
    · exact (ids e he).2

lemma EventIds.deleteChange (h : EventIds t) (eventId : ℕ) : EventIds (t.deleteChange eventId) where
  nodup := h.nodup.sublist (List.filter_sublist.map _)
  below := fun e he => h.below e (List.mem_of_mem_filter he)

lemma mem_deleteChange {eventId : ℕ} {e : PeerChange} :
    e ∈ (t.deleteChange eventId).events ↔ e ∈ t.events ∧ e.eventId ≠ eventId := by
  simp [Tables.deleteChange]

lemma grown_enqueue (events : u.events = t.events) (next : u.nextEvent = t.nextEvent)
    (operation : String) (p : Peer) : Grown t (u.enqueue operation p) := by
  refine ⟨[⟨u.nextEvent, operation, p⟩], by rw [enqueue_events, events], by simp, fun e he => ?_, ?_⟩
  · rw [List.mem_singleton.mp he, enqueue_nextEvent]
    exact ⟨next.ge, Nat.lt_succ_self _⟩
  · rw [enqueue_nextEvent, next]
    exact Nat.le_succ _

variable (t) in
lemma grown_updateRow (peerId : UInt32) (f : Peer → Peer) : Grown t (t.updateRow peerId f).2 := by
  rcases updateRow_cases t peerId f with ⟨-, h⟩ | ⟨r, -, h⟩
  · rw [h]
    exact Grown.refl t
  · rw [h]
    exact grown_enqueue rfl rfl _ _

variable (t) in
lemma grown_deleteRow (peerId : UInt32) : Grown t (t.deleteRow peerId).2 := by
  rcases deleteRow_cases t peerId with ⟨-, h⟩ | ⟨r, -, h⟩
  · rw [h]
    exact Grown.refl t
  · rw [h]
    exact grown_enqueue rfl rfl _ _

end Queue

section Calls
variable {o : Outcome} {c : Io} {w w' : World} {r : Except PeerError c.Value}

lemma grown_effect (hc : KeepsEvents (.io c)) : Grown w.toTables (effect cfg c w).2.toTables := by
  cases c with
  | deletePeerChange eventId => exact hc.elim
  | nextPeerId =>
    rw [effect]
    split <;> exact grown_of_eq rfl rfl
  | reservePeer peer test =>
    rw [effect]
    split
    · exact Grown.refl _
    · split
      · exact ⟨[], by simp, by simp, by simp, Nat.le_succ _⟩
      · exact grown_enqueue rfl rfl _ _
  | updatePeerDesired peer =>
    rw [effect]
    split
    · exact Grown.refl _
    · exact grown_updateRow _ _ _
  | setStatus peerId status => exact grown_updateRow _ _ _
  | deletePeer peerId => exact grown_deleteRow _ _
  | ensureWgInterface ifaceName peerId mtu =>
    refine grown_of_eq ?_ ?_ <;> simp only [effect, World.setIface, World.addLink] <;> split <;> rfl
  | configurePeer ifaceName listenPort pubkey endpoint =>
    rw [effect]
    split <;> exact Grown.refl _
  | configureLocalAddress ifaceName address =>
    rw [effect]
    split <;> exact Grown.refl _
  | _ => exact Grown.refl _

lemma exec_grown {e : Call} {a : Answer e} (he : KeepsEvents e)
    (h : exec cfg o e w = some (a, w')) : Grown w.toTables w'.toTables := by
  cases e with
  | lock l =>
    rw [OperationEffects.exec_lock h]
    exact Grown.refl _
  | unlock l =>
    rw [OperationEffects.exec_unlock h]
    exact Grown.refl _
  | resolveEndpoint text =>
    cases o <;> simp only [exec, reduceCtorEq, Option.some.injEq, Prod.mk.injEq] at h
    all_goals
      rw [← h.2]
      exact Grown.refl _
  | io c =>
    have whole := @grown_effect cfg _ w he
    rcases exec_tables h with heff | ⟨-, same | heff⟩
    · rwa [heff] at whole
    · rw [same]
      exact Grown.refl _
    · rwa [heff]

/-- The removal of an event, by the outcome of the call. -/
lemma exec_deletePeerChange {eventId : ℕ} {a : Except PeerError Bool}
    (h : exec cfg o (.io (.deletePeerChange eventId)) w = some (a, w')) :
    (w'.toTables = w.toTables ∧ ∃ error, o = .fail error) ∨
      (w'.toTables = w.deleteChange eventId ∧ ∀ error, o ≠ .fail error) := by
  cases o with
  | ok =>
    simp only [exec, effect, Option.some.injEq, Prod.mk.injEq] at h
    rw [← h.2]
    exact .inr ⟨rfl, by simp⟩
  | fail error =>
    simp only [exec, Option.some.injEq, Prod.mk.injEq] at h
    rw [h.2]
    exact .inl ⟨rfl, error, rfl⟩
  | late error =>
    simp only [exec, effect, Option.some.injEq, Prod.mk.injEq] at h
    rw [← h.2]
    exact .inr ⟨rfl, by simp⟩
  | _ => simp [exec] at h

end Calls

section Pass
variable {w w' v : World} {log : List (Answered Call Answer Outcome)} {change : PeerChange}
  {changes : List PeerChange} {r : Except PeerError Unit}

/-- Others may do anything to the world, but to the queue they only add events. -/
def Others (w v : World) : Prop := Grown w.toTables v.toTables

lemma others_trans (x y : World) (h : Others w x) (g : Others x y) : Others w y := h.trans g

/-- The program runs amid others, whatever its calls meet. -/
abbrev Among {α : Type} (cfg : Config) (w : World) (p : Program Call Answer α)
    (log : List (Answered Call Answer Outcome)) (v : World) (q : Program Call Answer α) : Prop :=
  Amid (fun o e w r v => exec cfg o e w = some (r, v)) Others w p log v q

/-- One round of a pass: what the apply returned, and how the removal of the event fared, if it
came to that. -/
structure Attempt where
  change : PeerChange
  applied : Except PeerError Unit
  removal : Option (Outcome × Except PeerError Bool)

/-- The error of the round. -/
def Attempt.error (a : Attempt) : Option PeerError :=
  match a.applied, a.removal with
  | .error error, _ => some error
  | .ok _, some (_, .error error) => some error
  | .ok _, _ => none

/-- The apply failed, or the removal did. -/
def Attempt.failed (a : Attempt) : Prop :=
  (∃ error, a.applied = .error error) ∨ ∃ error answer, a.removal = some (.fail error, answer)

/-- The rounds that a task made from `w` on, with its calls. -/
inductive Attempts (cfg : Config) :
    World → List Attempt → List (Answered Call Answer Outcome) → World → Prop
  | nil {w w' : World} (moved : Others w w') : Attempts cfg w [] [] w'
  | unapplied {w v w' : World} {change : PeerChange} {log rest : List (Answered Call Answer Outcome)}
      {error : PeerError} {attempts : List Attempt}
      (apply : Among cfg w (applyPeerChange change).run log v (.done (.error error)))
      (later : Attempts cfg v attempts rest w') :
      Attempts cfg w (⟨change, .error error, none⟩ :: attempts) (log ++ rest) w'
  | applied {w v x w' : World} {change : PeerChange} {log rest : List (Answered Call Answer Outcome)}
      {o : Outcome} {removed : Except PeerError Bool} {attempts : List Attempt}
      (apply : Among cfg w (applyPeerChange change).run log v (.done (.ok ())))
      (remove : Among cfg v (io (.deletePeerChange change.eventId)).run
        [⟨.io (.deletePeerChange change.eventId), o, removed⟩] x (.done removed))
      (later : Attempts cfg x attempts rest w') :
      Attempts cfg w (⟨change, .ok (), some (o, removed)⟩ :: attempts)
        (log ++ ⟨.io (.deletePeerChange change.eventId), o, removed⟩ :: rest) w'

/-- Without removals the queue only grows. -/
lemma among_grown {α : Type} {p q : Program Call Answer α} (hp : Calls KeepsEvents p)
    (h : Among cfg w p log v q) : Others w v :=
  (h.rel (I := Others) hp (Grown.refl _) others_trans (fun _ _ _ _ _ he hx => exec_grown he hx)
    fun _ _ h => h).1

lemma among_io {c : Io} {a : Except PeerError c.Value}
    (h : Among cfg w (io c).run log v (.done a)) :
    ∃ o x y, log = [⟨.io c, o, a⟩] ∧ Others w x ∧ exec cfg o (.io c) x = some (a, y) ∧
      Others y v := by
  rcases h.of_call others_trans (Grown.refl _) with ⟨-, hq, -⟩ |
    ⟨o, b, x, y, rest, hbefore, hx, hrest, rfl⟩
  · cases hq
  · obtain ⟨rfl, hd, hafter⟩ := hrest.of_done others_trans (Grown.refl _)
    cases hd
    exact ⟨o, x, y, rfl, hbefore, hx, hafter⟩

lemma applyPeerChange_grown {a : Except PeerError Unit}
    (h : Among cfg w (applyPeerChange change).run log v (.done a)) : Others w v :=
  among_grown ((calls_applyPeerChange change).mono fun _ => Job.keepsEvents) h

/-- What the pass answers after these rounds, if `first` is the error before them. -/
def passResult (first : Option PeerError) (attempts : List Attempt) : Except PeerError Unit :=
  match first.or (attempts.findSome? Attempt.error) with
  | some error => .error error
  | none => .ok ()

lemma passResult_cons (first : Option PeerError) (a : Attempt) (attempts : List Attempt) :
    passResult first (a :: attempts) = passResult (first.or a.error) attempts := by
  simp only [passResult, List.findSome?_cons]
  cases first with
  | some e => rfl
  | none => cases a.error <;> rfl

/-- The rounds of the loop, one for each listed event. -/
theorem processChanges_attempts {first : Option PeerError}
    (h : Among cfg w (processChanges first changes).run log w' (.done r)) :
    ∃ attempts, Attempts cfg w attempts log w' ∧ attempts.map Attempt.change = changes ∧
      r = passResult first attempts := by
  induction changes generalizing first w log with
  | nil =>
    cases first with
    | none =>
      obtain ⟨rfl, hd, moved⟩ := h.of_done others_trans (Grown.refl _)
      cases hd
      exact ⟨[], .nil moved, rfl, rfl⟩
    | some error =>
      obtain ⟨rfl, hd, moved⟩ := h.of_done others_trans (Grown.refl _)
      cases hd
      exact ⟨[], .nil moved, rfl, rfl⟩
  | cons change changes ih =>
    obtain ⟨error, v, log₁, log₂, hround, hrest, rfl⟩ := Amid.run_bind_done h
    obtain ⟨applied, x, log₃, log₄, happly, hremove, rfl⟩ := Amid.attempt_bind_done hround
    cases applied with
    | error e =>
      obtain ⟨rfl, hd, moved⟩ := hremove.of_done others_trans (Grown.refl _)
      cases hd
      obtain ⟨attempts, hattempts, hchanges, hr⟩ := ih hrest
      refine ⟨⟨change, .error e, none⟩ :: attempts, ?_, by rw [List.map_cons, hchanges], ?_⟩
      · rw [List.append_nil]
        exact .unapplied (.other happly moved) hattempts
      · rw [hr, passResult_cons]
        rfl
    | ok u =>
      obtain ⟨removed, y, log₅, log₆, hio, hend, rfl⟩ := Amid.attempt_bind_done hremove
      obtain ⟨o, _, _, rfl, -⟩ := among_io hio
      let round : Attempt := ⟨change, .ok (), some (o, removed)⟩
      have last : log₆ = [] ∧ error = .ok round.error ∧ Others y v := by
        cases removed <;>
        · obtain ⟨rfl, hd, moved⟩ := hend.of_done others_trans (Grown.refl _)
          cases hd
          exact ⟨rfl, rfl, moved⟩
      obtain ⟨rfl, rfl, moved⟩ := last
      obtain ⟨attempts, hattempts, hchanges, hr⟩ := ih hrest
      refine ⟨round :: attempts, ?_, by rw [List.map_cons, hchanges], ?_⟩
      · rw [List.append_nil, List.append_assoc]
        exact .applied happly (.other hio moved) hattempts
      · rw [hr, passResult_cons]

/-- An event stays in the queue unless one of the rounds with its id did not fail. -/
theorem Attempts.stays {attempts : List Attempt} {e : PeerChange}
    (h : Attempts cfg w attempts log w') (he : e ∈ w.events)
    (hfail : ∀ a ∈ attempts, a.change.eventId = e.eventId → a.failed) : e ∈ w'.events := by
  induction h with
  | nil moved => exact moved.mem he
  | unapplied apply _ ih =>
    exact ih ((applyPeerChange_grown apply).mem he) fun a ha => hfail a (List.mem_cons_of_mem _ ha)
  | @applied w v x w' change log rest o removed attempts apply remove _ ih =>
    refine ih ?_ fun a ha => hfail a (List.mem_cons_of_mem _ ha)
    have here := (applyPeerChange_grown apply).mem he
    obtain ⟨o', y, z, hlog, hbefore, hx, hafter⟩ := among_io remove
    cases hlog
    rcases exec_deletePeerChange hx with ⟨same, -⟩ | ⟨gone, notFail⟩
    · apply hafter.mem
      rw [same]
      exact hbefore.mem here
    · apply hafter.mem
      rw [gone, mem_deleteChange]
      refine ⟨hbefore.mem here, fun hid => ?_⟩
      rcases hfail _ List.mem_cons_self hid.symm with ⟨error, happlied⟩ | ⟨error, answer, hremoval⟩
      · cases happlied
      · cases hremoval
        exact notFail error rfl

/-- No event is taken from the queue but those of the list. -/
def TakesOnly (changes : List PeerChange) : Call → Prop
  | .io (.deletePeerChange eventId) => ∃ change ∈ changes, change.eventId = eventId
  | _ => True

lemma takesOnly_of_keepsEvents {e : Call} (h : KeepsEvents e) : TakesOnly changes e := by
  cases e with
  | io c => cases c <;> first | exact trivial | exact h.elim
  | _ => trivial

lemma calls_processChanges_takesOnly {first : Option PeerError} :
    Calls (TakesOnly changes) (processChanges first changes).run :=
  calls_processChanges (fun change _ => (calls_applyPeerChange change).mono fun _ h =>
    takesOnly_of_keepsEvents h.keepsEvents) fun change hc => ⟨change, hc, rfl⟩

/-- The events of the list may go, and new events come with new ids. -/
structure Shifted (changes : List PeerChange) (w v : World) : Prop where
  stays : ∀ e ∈ w.events, (∀ c ∈ changes, c.eventId ≠ e.eventId) → e ∈ v.events
  fresh : ∀ e ∈ v.events, e ∈ w.events ∨ w.nextEvent ≤ e.eventId
  next : w.nextEvent ≤ v.nextEvent

lemma Shifted.trans (x y : World) (h : Shifted changes w x) (g : Shifted changes x y) :
    Shifted changes w y where
  stays := fun e he hc => g.stays e (h.stays e he hc) hc
  fresh := fun e he => (g.fresh e he).elim (h.fresh e) fun hn => .inr (h.next.trans hn)
  next := h.next.trans g.next

lemma Others.shifted (h : Others w v) : Shifted changes w v :=
  ⟨fun _ he _ => h.mem he, fun _ he => h.fresh he, h.next⟩

lemma exec_shifted {o : Outcome} {e : Call} {a : Answer e} (he : TakesOnly changes e)
    (h : exec cfg o e w = some (a, v)) : Shifted changes w v := by
  by_cases keeps : KeepsEvents e
  · exact Others.shifted (exec_grown keeps h)
  · cases e with
    | io c =>
      cases c with
      | deletePeerChange eventId =>
        obtain ⟨change, hc, rfl⟩ := he
        rcases exec_deletePeerChange h with ⟨same, -⟩ | ⟨gone, -⟩
        · apply Others.shifted
          rw [Others, same]
          exact Grown.refl _
        · refine ⟨fun e he hne => ?_, fun e he => .inl ?_, by rw [gone]; rfl⟩
          · rw [gone, mem_deleteChange]
            exact ⟨he, (hne change hc).symm⟩
          · rw [gone, mem_deleteChange] at he
            exact he.1
      | _ => exact absurd trivial keeps
    | _ => exact absurd trivial keeps

lemma among_shifted {α : Type} {p q : Program Call Answer α} (hp : Calls (TakesOnly changes) p)
    (h : Among cfg w p log v q) : Shifted changes w v ∧ Calls (TakesOnly changes) q :=
  h.rel hp (Others.shifted (Grown.refl _)) Shifted.trans (fun _ _ _ _ _ he hx => exec_shifted he hx)
    fun _ _ h => Others.shifted h

/-- What a pass over the events of `w` did, up to its answer `r` in `w'`. -/
structure Isolated (cfg : Config) (w : World) (attempts : List Attempt)
    (log : List (Answered Call Answer Outcome)) (w' : World) (r : Except PeerError Unit) : Prop where
  ran : Attempts cfg w attempts log w'
  /-- Each listed event was tried once, in the order of the ids. -/
  listed : ∀ e, e ∈ attempts.map Attempt.change ↔ e ∈ w.events
  increasing : (attempts.map fun a => a.change.eventId).Pairwise (· < ·)
  absent : ∀ a ∈ attempts, a.change ∉ w'.events → a.applied = .ok ()
  present : ∀ a ∈ attempts, a.failed → a.change ∈ w'.events
  /-- An event that came at any time during the pass. -/
  kept : ∀ before after v q, Among cfg w (processChanges none w.listPeerChanges).run before v q →
    Among cfg v q after w' (.done r) → ∀ e ∈ v.events, e ∉ w.events → e ∈ w'.events
  /-- The first error of a round, or none. -/
  answer : r = passResult none attempts

theorem processChanges_isolated (ids : EventIds w.toTables)
    (h : Among cfg w (processChanges none w.listPeerChanges).run log w' (.done r)) :
    ∃ attempts, Isolated cfg w attempts log w' r := by
  obtain ⟨attempts, ran, hchanges, answer⟩ := processChanges_attempts h
  have listed : ∀ e, e ∈ attempts.map Attempt.change ↔ e ∈ w.events := fun e => by
    rw [hchanges, mem_listPeerChanges]
  have increasing : (attempts.map fun a => a.change.eventId).Pairwise (· < ·) := by
    have same : (attempts.map fun a => a.change.eventId) =
        w.listPeerChanges.map PeerChange.eventId := by rw [← hchanges, List.map_map]; rfl
    have nodup : (w.listPeerChanges.map PeerChange.eventId).Nodup :=
      ((List.perm_insertionSort _ _).map _).nodup_iff.mpr ids.nodup
    have sorted : w.listPeerChanges.Pairwise fun a b => a.eventId ≤ b.eventId :=
      List.pairwise_insertionSort _ _
    rw [same]
    exact (List.pairwise_map.mpr sorted).imp₂ (fun _ _ h hne => h.lt_of_ne hne) nodup
  have present : ∀ a ∈ attempts, a.failed → a.change ∈ w'.events := by
    intro a ha hfail
    refine ran.stays ((listed _).mp (List.mem_map_of_mem ha)) fun b hb hid => ?_
    have distinct : (attempts.map fun a => a.change.eventId).Nodup := increasing.imp Nat.ne_of_lt
    rwa [List.inj_on_of_nodup_map distinct hb ha hid]
  refine ⟨attempts, ran, listed, increasing, fun a ha gone => ?_, present, ?_, answer⟩
  · cases happlied : a.applied with
    | ok u => rfl
    | error e => exact absurd (present a ha (.inl ⟨e, happlied⟩)) gone
  · intro before after v q hbefore hafter e he hnew
    obtain ⟨shifted, calls⟩ := among_shifted calls_processChanges_takesOnly hbefore
    refine (among_shifted calls hafter).1.stays e he fun c hc hid => ?_
    rw [mem_listPeerChanges] at hc
    have below := ids.below c hc
    have fresh := (shifted.fresh e he).resolve_left hnew
    omega

/-- A pass among others: its listing failed, or it went once through the events then listed. -/
theorem syncPendingPeerChanges_isolated (ids : EventIds w.toTables)
    (h : Among cfg w syncPendingPeerChanges.run log w' (.done r)) :
    (∃ o error, log = [⟨.io .listPeerChanges, o, .error error⟩] ∧ r = .error error) ∨
      ∃ o l rest attempts, log = ⟨.io .listPeerChanges, o, .ok l.listPeerChanges⟩ :: rest ∧
        Others w l ∧ Isolated cfg l attempts rest w' r := by
  obtain ⟨a, v, log₁, log₂, hlist, hrest, rfl⟩ := Amid.run_bind_done h
  obtain ⟨o, x, y, rfl, hbefore, hx, hafter⟩ := among_io hlist
  cases a with
  | error error =>
    obtain ⟨rfl, hd, -⟩ := hrest.of_done others_trans (Grown.refl _)
    cases hd
    exact .inl ⟨o, error, rfl, rfl⟩
  | ok changes =>
    obtain ⟨hchanges, rfl⟩ := Prod.mk.inj (exec_ok hx)
    cases hchanges
    obtain ⟨attempts, isolated⟩ := processChanges_isolated (ids.grown hbefore) (hrest.after hafter)
    exact .inr ⟨o, x, log₂, attempts, rfl, hbefore, isolated⟩

end Pass

section Service
variable {s t u : System} {e : PeerChange} {i : ℕ}

/-- Any step may be taken. -/
abbrev Leads (cfg : Config) (s t : System) : Prop := Reaches (step cfg) (fun _ _ => True) s t

/-- Task `i` makes the call. -/
def ownCall (cfg : Config) (i : ℕ) (o : Outcome) (e : Call) (s : System) (r : Answer e)
    (t : System) : Prop :=
  ∃ op next w, s.tasks[i]? = some (op, .call e next) ∧ exec cfg o e s.world = some (r, w) ∧
    t = ⟨w, s.tasks.set i (op, next r)⟩

/-- A step of the service that is not one of task `i` and does not end it. -/
def otherStep (cfg : Config) (i : ℕ) (s t : System) : Prop :=
  ∃ l, step cfg l s = some t ∧ l ≠ .restart ∧ ∀ o, l ≠ .task i o

/-- Between `s` and `t` a pass began an apply of the event and it returned Ok. -/
def AppliedSince (cfg : Config) (e : PeerChange) (s t : System) : Prop :=
  ∃ i rest log s₁ s₂, Leads cfg s s₁ ∧
    s₁.tasks[i]? = some (.syncPendingPeerChanges, (applyPeerChange e).run >>= rest) ∧
    Amid (ownCall cfg i) (otherStep cfg i) s₁ (applyPeerChange e).run log s₂ (.done (.ok ())) ∧
    Leads cfg s₂ t

/-- How a pass goes on after the apply of an event. -/
def afterApply (first : Option PeerError) (change : PeerChange) (changes : List PeerChange)
    (applied : Except PeerError Unit) : Program Call Answer Reply :=
  match applied with
  | .error error => answerNone (processChanges (first.or (some error)) changes)
  | .ok _ => .call (.io (.deletePeerChange change.eventId)) fun removed =>
    answerNone (processChanges (first.or (match removed with
      | .ok _ => none
      | .error error => some error)) changes)

lemma processChanges_cons (first : Option PeerError) (change : PeerChange)
    (changes : List PeerChange) : answerNone (processChanges first (change :: changes)) =
      (applyPeerChange change).run >>= afterApply first change changes := by
  simp only [answerNone, processChanges, processChange, run_bind_eq, attempt_run, bind_assoc,
    done_bind, following_ok]
  congr 1
  funext applied
  cases applied with
  | error error => rfl
  | ok u =>
    change Program.call _ _ = Program.call _ _
    congr 1
    funext removed
    cases removed <;> rfl

/-- Where a task stands: it has no part in the queue, or it is a pass before its listing, inside the
apply of an event or before its removal. `G` holds of the events that are listed and not yet dealt
with, `A` of an event and what is left of its apply, and `D` of an event once applied. -/
inductive Stage (G : PeerChange → Prop)
    (A : PeerChange → Program Call Answer (Except PeerError Unit) → Prop) (D : PeerChange → Prop) :
    Op → Program Call Answer Reply → Prop
  | apart {op : Op} {q : Program Call Answer Reply} (calls : Calls KeepsEvents q) : Stage G A D op q
  | listing : Stage G A D .syncPendingPeerChanges (answerNone syncPendingPeerChanges)
  | applying {q : Program Call Answer Reply} {e : Call}
      {next : Answer e → Program Call Answer (Except PeerError Unit)} (first : Option PeerError)
      (change : PeerChange) (changes : List PeerChange) (listed : ∀ c ∈ change :: changes, G c)
      (calls : Calls KeepsEvents (.call e next)) (underway : A change (.call e next))
      (left : q = .call e next >>= afterApply first change changes) :
      Stage G A D .syncPendingPeerChanges q
  | removing {q : Program Call Answer Reply} (first : Option PeerError) (change : PeerChange)
      (changes : List PeerChange) (listed : ∀ c ∈ change :: changes, G c) (applied : D change)
      (left : q = afterApply first change changes (.ok ())) :
      Stage G A D .syncPendingPeerChanges q

variable {G G' : PeerChange → Prop}
  {A A' : PeerChange → Program Call Answer (Except PeerError Unit) → Prop}
  {D D' : PeerChange → Prop} {op : Op} {first : Option PeerError} {change : PeerChange}
  {changes : List PeerChange}

lemma Stage.mono {q : Program Call Answer Reply} (h : Stage G A D op q) (hG : ∀ c, G c → G' c)
    (hA : ∀ c p, G c → A c p → A' c p) (hD : ∀ c, G c → D c → D' c) : Stage G' A' D' op q := by
  cases h with
  | apart calls => exact .apart calls
  | listing => exact .listing
  | applying first change changes listed calls underway left =>
    exact .applying first change changes (fun c hc => hG c (listed c hc)) calls
      (hA _ _ (listed change List.mem_cons_self) underway) left
  | removing first change changes listed applied left =>
    exact .removing first change changes (fun c hc => hG c (listed c hc))
      (hD _ (listed change List.mem_cons_self) applied) left

/-- Before the next event of the list. -/
lemma Stage.loop (listed : ∀ c ∈ changes, G c)
    (begin : ∀ c rest, answerNone (processChanges first changes) = (applyPeerChange c).run >>= rest →
      A c (applyPeerChange c).run) :
    Stage G A D .syncPendingPeerChanges (answerNone (processChanges first changes)) := by
  cases changes with
  | nil => cases first <;> exact .apart trivial
  | cons change changes =>
    exact .applying first change changes listed
      ((calls_applyPeerChange change).mono fun _ => Job.keepsEvents)
      (begin change _ (processChanges_cons first change changes))
      (processChanges_cons first change changes)

/-- Inside an apply or right after it. -/
lemma Stage.within {p : Program Call Answer (Except PeerError Unit)}
    (listed : ∀ c ∈ change :: changes, G c) (calls : Calls KeepsEvents p) (underway : A change p)
    (ended : ∀ c, A c (.done (.ok ())) → D c)
    (begin : ∀ c rest, p >>= afterApply first change changes = (applyPeerChange c).run >>= rest →
      A c (applyPeerChange c).run) :
    Stage G A D .syncPendingPeerChanges (p >>= afterApply first change changes) := by
  cases p with
  | call e next => exact .applying first change changes listed calls underway rfl
  | done a =>
    cases a with
    | ok u => exact .removing first change changes listed (ended change underway) rfl
    | error error => exact .loop (fun c hc => listed c (List.mem_cons_of_mem _ hc)) begin

/-- The next call of a task, unless it removes an event, leaves the queue alone. -/
lemma Stage.call {e : Call} {next : Answer e → Program Call Answer Reply}
    (h : Stage G A D op (.call e next)) :
    KeepsEvents e ∨ ∃ c, e = .io (.deletePeerChange c.eventId) ∧ G c ∧ D c := by
  generalize hq : Program.call e next = q at h
  cases h with
  | apart calls =>
    rw [← hq] at calls
    exact .inl calls.1
  | listing =>
    cases hq
    exact .inl trivial
  | applying first change changes listed calls underway left =>
    rw [left, call_bind] at hq
    cases hq
    exact .inl calls.1
  | removing first change changes listed applied left =>
    rw [left] at hq
    cases hq
    exact .inr ⟨change, rfl, listed change List.mem_cons_self, applied⟩

/-- A task moves on with its next call. -/
theorem Stage.step {e : Call} {next : Answer e → Program Call Answer Reply} {o : Outcome}
    {a : Answer e} {w w' : World} (h : Stage G A D op (.call e next))
    (hx : exec cfg o e w = some (a, w')) (still : ∀ c, G c → G' c) (table : ∀ c ∈ w.events, G' c)
    (underway : ∀ c (n : Answer e → Program Call Answer (Except PeerError Unit)),
      A c (.call e n) → A' c (n a))
    (ended : ∀ c, A' c (.done (.ok ())) → D' c)
    (begin : op = .syncPendingPeerChanges → ∀ c rest, next a = (applyPeerChange c).run >>= rest →
      A' c (applyPeerChange c).run) : Stage G' A' D' op (next a) := by
  generalize hq : Program.call e next = q at h
  cases h with
  | apart calls =>
    rw [← hq] at calls
    exact .apart (calls.2 a)
  | listing =>
    cases hq
    cases a with
    | error error => exact .apart trivial
    | ok listed =>
      obtain ⟨hlisted, -⟩ := Prod.mk.inj (exec_ok hx)
      cases hlisted
      exact .loop (fun c hc => table c (mem_listPeerChanges.mp hc)) (begin rfl)
  | applying first change changes listed calls running left =>
    rw [left, call_bind] at hq
    cases hq
    exact .within (fun c hc => still c (listed c hc)) (calls.2 a) (underway _ _ running) ended
      (begin rfl)
  | removing first change changes listed applied left =>
    rw [left] at hq
    cases hq
    exact .loop (fun c hc => still c (listed c (List.mem_cons_of_mem _ hc))) (begin rfl)

lemma stage_program (op : Op) : Stage G A D op (program cfg op) := by
  by_cases h : op = .syncPendingPeerChanges
  · rw [h]
    exact .listing
  · exact .apart (calls_program h)

/-- Every task stands somewhere; what holds of an apply may depend on its task. -/
def Staged (G : PeerChange → Prop)
    (A : ℕ → PeerChange → Program Call Answer (Except PeerError Unit) → Prop)
    (D : PeerChange → Prop) (s : System) : Prop :=
  ∀ i op q, s.tasks[i]? = some (op, q) → Stage G (A i) D op q

variable {B B' : ℕ → PeerChange → Program Call Answer (Except PeerError Unit) → Prop} {l : Label}

/-- One step of the service, seen from all tasks. -/
theorem Staged.after (h : Staged G B D s) (hs : step cfg l s = some t) (still : ∀ c, G c → G' c)
    (table : ∀ c ∈ s.world.events, G' c) (done : ∀ c, D c → D' c)
    (beside : ∀ i c p, otherStep cfg i s t → B i c p → B' i c p)
    (underway : ∀ i o e a c (n : Answer e → Program Call Answer (Except PeerError Unit)),
      ownCall cfg i o e s a t → B i c (.call e n) → B' i c (n a))
    (ended : ∀ i c, B' i c (.done (.ok ())) → D' c)
    (begin : ∀ i c rest, t.tasks[i]? = some (.syncPendingPeerChanges,
      (applyPeerChange c).run >>= rest) → B' i c (applyPeerChange c).run) : Staged G' B' D' t := by
  have rest : ∀ i op q, otherStep cfg i s t → s.tasks[i]? = some (op, q) → Stage G' (B' i) D' op q :=
    fun i op q other hi => (h i op q hi).mono still (fun c p _ => beside i c p other)
      fun c _ => done c
  intro i op q hi
  cases l with
  | task j o =>
    obtain ⟨op', e, next, a, w, hj, hx, rfl⟩ := Pool.stepTask_cases hs
    by_cases hij : j = i
    · subst hij
      rw [List.getElem?_set_self (List.getElem?_eq_some_iff.mp hj).1] at hi
      cases hi
      exact (h j op (.call e next) hj).step hx still table
        (fun c n => underway j o e a c n ⟨op, next, w, hj, hx, rfl⟩) (ended j) fun hop c tail heq =>
          begin j c tail (by
            rw [List.getElem?_set_self (List.getElem?_eq_some_iff.mp hj).1, hop, heq])
    · rw [List.getElem?_set_ne hij] at hi
      exact rest i op q ⟨.task j o, hs, by simp, fun o' ho => hij (by cases ho; rfl)⟩ hi
  | start op' =>
    have hstep := hs
    simp only [ManagerSystem.step, Option.ite_none_right_eq_some, Option.some.injEq] at hs
    obtain ⟨-, rfl⟩ := hs
    rcases Nat.lt_trichotomy i s.tasks.length with hlt | rfl | hgt
    · rw [Pool.spawn, List.getElem?_append_left hlt] at hi
      exact rest i op q ⟨.start op', hstep, by simp, fun o ho => by cases ho⟩ hi
    · rw [Pool.spawn, List.getElem?_concat_length] at hi
      cases hi
      exact stage_program _
    · rw [Pool.spawn, List.getElem?_eq_none (by simpa using hgt)] at hi
      cases hi
  | sqlStatus peerId status =>
    have hstep := hs
    cases hs
    exact rest i op q ⟨.sqlStatus peerId status, hstep, by simp, fun o ho => by cases ho⟩ hi
  | sqlDelete peerId =>
    have hstep := hs
    cases hs
    exact rest i op q ⟨.sqlDelete peerId, hstep, by simp, fun o ho => by cases ho⟩ hi
  | restart =>
    cases hs
    obtain ⟨rfl, hop⟩ : i = 0 ∧ (.recover, program cfg .recover) = (op, q) := by
      simpa [List.getElem?_singleton] using hi
    cases hop
    exact stage_program _

/-- What a step can do to the queue. -/
theorem Staged.queue (h : Staged G B D s) (hs : step cfg l s = some t) :
    Grown s.world.toTables t.world.toTables ∨ ∃ c, G c ∧ D c ∧
      t.world.toTables = s.world.deleteChange c.eventId := by
  cases l with
  | task j o =>
    obtain ⟨op, e, next, a, w, hj, hx, rfl⟩ := Pool.stepTask_cases hs
    rcases (h j op _ hj).call with keeps | ⟨c, rfl, hG, hD⟩
    · exact .inl (exec_grown keeps hx)
    · rcases exec_deletePeerChange hx with ⟨same, -⟩ | ⟨gone, -⟩
      · refine .inl ?_
        rw [same]
        exact Grown.refl _
      · exact .inr ⟨c, hG, hD, gone⟩
  | start op =>
    simp only [ManagerSystem.step, Option.ite_none_right_eq_some, Option.some.injEq] at hs
    obtain ⟨-, rfl⟩ := hs
    exact .inl (Grown.refl _)
  | sqlStatus peerId status =>
    cases hs
    exact .inl (grown_updateRow _ _ _)
  | sqlDelete peerId =>
    cases hs
    exact .inl (grown_deleteRow _ _)
  | restart =>
    cases hs
    exact .inl (Grown.refl _)

/-- The ids in the queue and those still listed by a pass have been given. -/
structure Given (s : System) : Prop where
  ids : EventIds s.world.toTables
  listed : Staged (fun c => c.eventId < s.world.nextEvent) (fun _ _ _ => True) (fun _ => True) s

lemma step_given (h : Given s) (hs : step cfg l s = some t) : Given t := by
  have growth : EventIds t.world.toTables ∧ s.world.nextEvent ≤ t.world.nextEvent := by
    rcases h.listed.queue hs with grown | ⟨c, -, -, gone⟩
    · exact ⟨h.ids.grown grown, grown.next⟩
    · rw [gone]
      exact ⟨h.ids.deleteChange _, le_rfl⟩
  refine ⟨growth.1, h.listed.after hs (fun c hc => ?_) (fun c hc => ?_) ?_ ?_ ?_ ?_ ?_⟩
  · exact hc.trans_le growth.2
  · exact (h.ids.below c hc).trans_le growth.2
  all_goals simp

lemma leads_given {w : World} (ids : EventIds w.toTables) (h : Leads cfg (System.stopped w) s) :
    Given s := by
  refine h.invariant ⟨ids, fun i op q hi => ?_⟩ fun _ _ _ hu _ hn => step_given hu hn
  simp [System.stopped] at hi

/-- The event gets into the queue: by a step, or it was there before the first start. -/
def Committed (cfg : Config) (w : World) (e : PeerChange) (s : System) : Prop :=
  e ∈ s.world.events ∧ (s = System.stopped w ∨ ∃ s₀ l, Leads cfg (System.stopped w) s₀ ∧
    step cfg l s₀ = some s ∧ e ∉ s₀.world.events)

/-- An apply of the event has begun since `s` in task `i` of `u`, and `p` of it is left. -/
def ApplyingSince (cfg : Config) (e : PeerChange) (s u : System) (i : ℕ)
    (p : Program Call Answer (Except PeerError Unit)) : Prop :=
  ∃ rest log s₁, Leads cfg s s₁ ∧
    s₁.tasks[i]? = some (.syncPendingPeerChanges, (applyPeerChange e).run >>= rest) ∧
    Amid (ownCall cfg i) (otherStep cfg i) s₁ (applyPeerChange e).run log u p

/-- Since `s`, where the event was committed, only an apply of it makes it leave. -/
structure Guarded (cfg : Config) (e : PeerChange) (s u : System) : Prop where
  ids : EventIds u.world.toTables
  given : e.eventId < u.world.nextEvent
  alone : ∀ f ∈ u.world.events, f.eventId = e.eventId → f = e
  there : e ∈ u.world.events ∨ AppliedSince cfg e s u
  tasks : Staged (fun c => c.eventId = e.eventId → c = e)
    (fun i c p => c = e → ApplyingSince cfg e s u i p) (fun c => c = e → AppliedSince cfg e s u) u

lemma AppliedSince.next (h : AppliedSince cfg e s u) (hs : step cfg l u = some t) :
    AppliedSince cfg e s t := by
  obtain ⟨i, rest, log, s₁, s₂, before, task, apply, after⟩ := h
  exact ⟨i, rest, log, s₁, s₂, before, task, apply, after.tail l trivial hs⟩

lemma committed_guarded {w : World} (ids : EventIds w.toTables) (h : Committed cfg w e s) :
    Guarded cfg e s s := by
  obtain ⟨here, rfl | ⟨s₀, l, leads, hs, absent⟩⟩ := h
  · refine ⟨ids, ids.below e here, fun f hf hid => ids.unique hf here hid, .inl here,
      fun i op q hi => ?_⟩
    simp [System.stopped] at hi
  · have given := leads_given ids leads
    have now := step_given given hs
    have fresh : s₀.world.nextEvent ≤ e.eventId := by
      rcases given.listed.queue hs with grown | ⟨c, -, -, gone⟩
      · exact (grown.fresh here).resolve_left absent
      · rw [gone, mem_deleteChange] at here
        exact absurd here.1 absent
    have listed : Staged (fun c => c.eventId < s₀.world.nextEvent) (fun _ _ _ => True)
        (fun _ => True) s :=
      given.listed.after hs (fun _ hc => hc) given.ids.below (fun _ _ => trivial)
        (fun _ _ _ _ _ => trivial) (fun _ _ _ _ _ _ _ _ => trivial) (fun _ _ _ => trivial)
        fun _ _ _ _ => trivial
    have apart : ∀ c : PeerChange, c.eventId < s₀.world.nextEvent → c ≠ e := fun c hc he => by
      rw [he] at hc
      omega
    refine ⟨now.ids, now.ids.below e here, fun f hf hid => now.ids.unique hf here hid, .inl here,
      fun i op q hi => (listed i op q hi).mono (fun c hc hid => ?_)
        (fun c p hc _ he => absurd he (apart c hc)) fun c hc _ he => absurd he (apart c hc)⟩
    omega

lemma step_guarded (leads : Leads cfg s u) (h : Guarded cfg e s u) (hs : step cfg l u = some t) :
    Guarded cfg e s t := by
  have on : Leads cfg s t := leads.tail l trivial hs
  have queue : EventIds t.world.toTables ∧ e.eventId < t.world.nextEvent ∧
      (∀ f ∈ t.world.events, f.eventId = e.eventId → f = e) ∧
      (e ∈ t.world.events ∨ AppliedSince cfg e s t) := by
    rcases h.tasks.queue hs with grown | ⟨c, hG, hD, gone⟩
    · refine ⟨h.ids.grown grown, h.given.trans_le grown.next, fun f hf hid => ?_,
        h.there.imp grown.mem fun applied => applied.next hs⟩
      rcases grown.fresh hf with hold | hnew
      · exact h.alone f hold hid
      · have := h.given
        omega
    · rw [gone]
      refine ⟨h.ids.deleteChange _, h.given, fun f hf => h.alone f (mem_deleteChange.mp hf).1, ?_⟩
      rcases h.there with here | applied
      · by_cases hid : c.eventId = e.eventId
        · exact .inr ((hD (hG hid)).next hs)
        · exact .inl (mem_deleteChange.mpr ⟨here, fun h => hid h.symm⟩)
      · exact .inr (applied.next hs)
  obtain ⟨ids, given, alone, there⟩ := queue
  refine ⟨ids, given, alone, there, h.tasks.after hs (fun _ hc => hc) h.alone
    (fun c hc he => (hc he).next hs) (fun i c p other hc he => ?_)
    (fun i o e' a c n own hc he => ?_) (fun i c hc he => ?_) fun i c rest hi he => ?_⟩
  · obtain ⟨rest, log, s₁, before, task, apply⟩ := hc he
    exact ⟨rest, log, s₁, before, task, .other apply other⟩
  · obtain ⟨rest, log, s₁, before, task, apply⟩ := hc he
    exact ⟨rest, _, s₁, before, task, .call o a apply own⟩
  · obtain ⟨rest, log, s₁, before, task, apply⟩ := hc he
    exact ⟨i, rest, log, s₁, t, before, task, apply, .refl⟩
  · rw [he] at hi ⊢
    exact ⟨rest, [], t, on, hi, .start⟩

/-- Over any passes and restarts, an event is gone only after an apply of it returned Ok. -/
theorem gone_applied {w : World} (ids : EventIds w.toTables) (h : Committed cfg w e s)
    (leads : Leads cfg s t) (gone : e ∉ t.world.events) : AppliedSince cfg e s t := by
  have guarded : Guarded cfg e s t := leads.invariant_with (committed_guarded ids h)
    (fun _ hu => hu) fun _ _ _ hu hg _ hn => step_guarded hu hg hn
  exact guarded.there.resolve_left gone

end Service

/-- A pass tries each listed event once, in order and whatever becomes of the others, and loses
none; and in the running service an event leaves the queue only after its apply. -/
theorem noChange_lost (cfg : Config) :
    (∀ w log w' r, EventIds w.toTables → Among cfg w syncPendingPeerChanges.run log w' (.done r) →
      (∃ o error, log = [⟨.io .listPeerChanges, o, .error error⟩] ∧ r = .error error) ∨
        ∃ o l rest attempts, log = ⟨.io .listPeerChanges, o, .ok l.listPeerChanges⟩ :: rest ∧
          Others w l ∧ Isolated cfg l attempts rest w' r) ∧
    ∀ w e s t, EventIds w.toTables → Committed cfg w e s → Leads cfg s t → e ∉ t.world.events →
      AppliedSince cfg e s t :=
  ⟨fun _ _ _ _ ids h => syncPendingPeerChanges_isolated ids h,
    fun _ _ _ _ ids h leads gone => gone_applied ids h leads gone⟩

section Sample

/-- The event of a deleted peer. -/
def deleted (eventId : ℕ) (peerId : UInt32) : PeerChange :=
  ⟨eventId, "DELETE", Recovery.sampleRow peerId "d" .active⟩

def pendingWorld : World :=
  { emptyWorld [] [] ⟨none, ∅⟩ with
    events := [deleted 2 8, deleted 1 7, deleted 3 9], nextEvent := 4 }

/-- Recovery, and a pass that cannot delete the interface of the second event. -/
def failingPass : List Label :=
  .restart :: runs 0 15 ++ .start .syncPendingPeerChanges :: runs 1 20 ++
    .task 1 (.fail (.database "connection lost")) :: runs 1 14

/-- A pass in which the second of three events fails, and a service whose next pass applies it. -/
theorem noChange_lost_sample :
    (∃ log w' r, Among sampleConfig pendingWorld syncPendingPeerChanges.run log w' (.done r) ∧
      w'.events = [deleted 2 8] ∧
      ((∃ o error, log = [⟨.io .listPeerChanges, o, .error error⟩] ∧ r = .error error) ∨
        ∃ o l rest attempts, log = ⟨.io .listPeerChanges, o, .ok l.listPeerChanges⟩ :: rest ∧
          Others pendingWorld l ∧ Isolated sampleConfig l attempts rest w' r)) ∧
    ∃ s t, Leads sampleConfig (System.stopped pendingWorld) s ∧ s.world.events = [deleted 2 8] ∧
      Leads sampleConfig s t ∧ t.world.events = [] ∧ ∀ e ∈ pendingWorld.events,
        AppliedSince sampleConfig e (System.stopped pendingWorld) t := by
  have ids : EventIds pendingWorld.toTables := ⟨by decide, by decide⟩
  constructor
  · have run : (RunFailures.trial (exec sampleConfig) OperationEffects.refused
        (OperationEffects.onlyFails (.io (.deleteInterface "wgp8"))) syncPendingPeerChanges.run
        pendingWorld).map (fun x => x.2.2.events) = some [deleted 2 8] := by
      decide +kernel
    obtain ⟨⟨failed, r, w'⟩, hrun, left⟩ := Option.map_eq_some_iff.mp run
    have ends := (RunFailures.trial_suffers (P := fun _ _ => True) (fun _ => trivial) hrun).ends
    obtain ⟨log, among⟩ : ∃ log, Among sampleConfig pendingWorld syncPendingPeerChanges.run log w'
      (.done r) := Amid.of_ends ends
    exact ⟨log, w', r, among, left, (noChange_lost sampleConfig).1 _ _ _ _ ids among⟩
  · have run : ((steps (step sampleConfig) failingPass (System.stopped pendingWorld)).bind fun s =>
        (steps (step sampleConfig) (.start .syncPendingPeerChanges :: runs 2 14) s).map fun t =>
          (s.world.events, t.world.events)) = some ([deleted 2 8], []) := by
      decide +kernel
    obtain ⟨s, hs, later⟩ := Option.bind_eq_some_iff.mp run
    obtain ⟨t, ht, events⟩ := Option.map_eq_some_iff.mp later
    obtain ⟨left, empty⟩ := Prod.mk.inj events
    have first : Leads sampleConfig (System.stopped pendingWorld) s :=
      steps_reaches (Schedule.of_forall fun _ _ _ => trivial) hs
    have second : Leads sampleConfig s t := steps_reaches (Schedule.of_forall fun _ _ _ => trivial) ht
    refine ⟨s, t, first, left, second, empty, fun e he => ?_⟩
    exact (noChange_lost sampleConfig).2 _ _ _ _ ids ⟨he, .inl rfl⟩ (first.trans second)
      (by simp [empty])

end Sample

end Autopeer.ChangeDelivery
