import Autopeer.TableDiscipline
import Autopeer.RequestParsing

/-! The invariant of the peers table: what each row looks like, that no two rows share a key, and
that a row keeps its identity from its insertion on. -/
namespace Autopeer.TableInvariant
open Ipv6 PeerData RequestParsing ProgramPool TransitionRuns
open ManagerWorld ManagerPrograms ManagerSystem ManagerEffects TableIdentity TableDiscipline

variable {cfg : Config} {parseIpv6 : String → Option Ipv6Addr}

/-- The arguments of a request passed the parsers of its handler. -/
def Validated (parseIpv6 : String → Option Ipv6Addr) : Op → Prop
  | .createPeer _ peerName _ _ linkLocal _ | .updatePeer _ peerName _ _ linkLocal _ =>
    (∃ text, parsePeerName text = .ok peerName) ∧
      ∃ manualLla localLlIp remoteLlIp,
        parseLinkLocal parseIpv6 manualLla localLlIp remoteLlIp = .ok linkLocal
  | .deletePeer _ peerName => ∃ text, parsePeerName text = .ok peerName
  | _ => True

/-- Two link-local addresses that differ. -/
def LinkLocalPair (l : Ipv6Addr × Ipv6Addr) : Prop :=
  l.1.isUnicastLinkLocal = true ∧ l.2.isUnicastLinkLocal = true ∧ l.1 ≠ l.2

structure ValidRow (localAsn : UInt32) (p : Peer) : Prop where
  asn : p.asn ≠ localAsn
  port : 20000 ≤ p.listenPort.toNat ∧ p.listenPort.toNat ≤ 29999
  linkLocal : LinkLocalPair (p.localLlIp, p.remoteLlIp)

lemma searchPort_range (asn : UInt32) (increment : ℕ) :
    20000 ≤ (searchPort asn increment).toNat ∧ (searchPort asn increment).toNat ≤ 29999 := by
  have h : ((asn % 10000 + UInt32.ofNat increment) % 10000).toNat < 10000 := by
    rw [UInt32.toNat_mod]
    exact Nat.mod_lt _ (by decide)
  unfold searchPort
  generalize (asn % 10000 + UInt32.ofNat increment) % 10000 = offset at h
  have sum : (20000 + offset.toUInt16).toNat = (20000 + offset.toNat % 2 ^ 16) % 2 ^ 16 := by
    rw [UInt16.toNat_add, UInt32.toNat_toUInt16]
    rfl
  rw [sum]
  omega

lemma automatic_linkLocal {localAsn asn : UInt32} (h : asn ≠ localAsn) :
    LinkLocalPair (asnLinkLocal localAsn, asnLinkLocal asn) :=
  ⟨asnLinkLocal_unicast _, asnLinkLocal_unicast _, fun he => h (asnLinkLocal_injective he).symm⟩

lemma validRow_law : RowLaw cfg LinkLocalPair (ValidRow cfg.localAsn) where
  status := fun _ _ h => ⟨h.asn, h.port, h.linkLocal⟩
  built := by
    intro peerId asn peerName pubkey endpoint linkLocal increment mtu hasn hL
    refine ⟨hasn, searchPort_range asn increment, ?_⟩
    cases linkLocal with
    | none => exact automatic_linkLocal hasn
    | some l => exact hL l rfl
  desired := by
    intro p pubkey endpoint linkLocal mtu h hL
    refine ⟨h.asn, h.port, ?_⟩
    cases linkLocal with
    | none => exact automatic_linkLocal h.asn
    | some l => exact hL l rfl

lemma Validated.manual {op : Op} (h : Validated parseIpv6 op) : Manual LinkLocalPair op := by
  cases op with
  | createPeer asn peerName pubkey endpoint linkLocal mtu =>
    obtain ⟨-, manualLla, a, b, hparse⟩ := h
    rintro l rfl
    exact parseLinkLocal_ok hparse
  | updatePeer asn peerName pubkey endpoint linkLocal mtu =>
    obtain ⟨-, manualLla, a, b, hparse⟩ := h
    rintro l rfl
    exact parseLinkLocal_ok hparse
  | _ => trivial

section History
variable {w w' : World} {s s' : System}

lemma exec_born {o : Outcome} {e : Call} {r : Answer e} (h : exec cfg o e w = some (r, w')) :
    w.born ⊆ w'.born := by
  by_cases he : ∀ p test, e ≠ .io (.reservePeer p test)
  · exact exec_born_eq h he ▸ List.Subset.refl _
  · obtain ⟨p, test, rfl⟩ : ∃ p test, e = .io (.reservePeer p test) := by
      simpa only [not_forall, not_not] using he
    have inserts : w.born ⊆ (effect cfg (.reservePeer p test) w).2.born := by
      simp only [effect]
      split
      · exact List.Subset.refl _
      · split
        · exact List.Subset.refl _
        · exact List.subset_append_left _ _
    rcases exec_tables h with heq | ⟨-, ht | ht⟩
    · exact (congrArg (fun x => x.2.born) heq) ▸ inserts
    · exact ht ▸ List.Subset.refl _
    · exact ht ▸ inserts

/-- The history of insertions only grows. -/
lemma step_born {l : Label} (h : step cfg l s = some s') : s.world.born ⊆ s'.world.born := by
  cases l with
  | task i o =>
    obtain ⟨t, e, next, r, w', -, hx, rfl⟩ := Pool.stepTask_cases h
    exact exec_born hx
  | start op =>
    simp only [step, Option.ite_none_right_eq_some, Option.some.injEq] at h
    exact h.2 ▸ List.Subset.refl _
  | sqlStatus peerId status =>
    cases h
    exact updateRow_born.symm ▸ List.Subset.refl _
  | sqlDelete peerId =>
    cases h
    exact deleteRow_born.symm ▸ List.Subset.refl _
  | restart =>
    cases h
    exact List.Subset.refl _

lemma reaches_born {P : System → Label → Prop} (h : Reaches (step cfg) P s s') :
    s.world.born ⊆ s'.world.born :=
  h.invariant (J := fun u => s.world.born ⊆ u.world.born) (List.Subset.refl _)
    fun _ _ _ ih _ hs _ hb => step_born hs (ih hb)

end History

lemma emptyWorld_inOrder {V : Peer → Prop} (ifaces : List Iface) (nft : List UInt16) (bird : Bird) :
    InOrder V (System.stopped (emptyWorld ifaces nft bird)) := by
  refine inOrder_stopped ⟨?_, ?_, ?_, ?_, ?_, ?_, ?_, ?_, ?_, ?_⟩ ?_ <;> simp [emptyWorld]

/-- A step of the service whose request, if it is one, was validated. -/
def ValidatedStep (parseIpv6 : String → Option Ipv6Addr) (_ : System) (l : Label) : Prop :=
  ∀ op, l = .start op → Validated parseIpv6 op

/-- From an empty table on, in every state: the rows are valid, no two rows share a key, each row
has the identity it was inserted with, and no other row has it later. -/
theorem peers_table {ifaces : List Iface} {nft : List UInt16} {bird : Bird} {s : System}
    (h : Reaches (step cfg) (ValidatedStep parseIpv6)
      (System.stopped (emptyWorld ifaces nft bird)) s) :
    (∀ r ∈ s.world.peers, r.asn ≠ cfg.localAsn ∧ r.ifaceName = wgpName r.peerId ∧
      20000 ≤ r.listenPort.toNat ∧ r.listenPort.toNat ≤ 29999 ∧
      r.localLlIp.isUnicastLinkLocal = true ∧ r.remoteLlIp.isUnicastLinkLocal = true ∧
      r.localLlIp ≠ r.remoteLlIp) ∧
    (s.world.peers.Pairwise fun p q => p.peerId ≠ q.peerId ∧ p.listenPort ≠ q.listenPort ∧
      p.ifaceName ≠ q.ifaceName ∧ p.pair ≠ q.pair) ∧
    (∀ r ∈ s.world.peers, ∃! b, b ∈ s.world.born ∧ b.peerId = r.peerId ∧ identity b = identity r) ∧
    ∀ s', Reaches (step cfg) (ValidatedStep parseIpv6) s s' →
      ∀ r ∈ s.world.peers, ∀ r' ∈ s'.world.peers, r'.peerId = r.peerId → identity r' = identity r := by
  have order : ∀ {u}, Reaches (step cfg) (ValidatedStep parseIpv6)
      (System.stopped (emptyWorld ifaces nft bird)) u → InOrder (ValidRow cfg.localAsn) u :=
    fun hu => Reaches.inOrder validRow_law hu (emptyWorld_inOrder ifaces nft bird)
      fun _ op hop => (hop op rfl).manual
  have hi := (order h).identified
  refine ⟨fun r hr => ?_, ?_, fun r hr => ?_, fun s' hs' r hr r' hr' hid => ?_⟩
  · obtain ⟨hasn, ⟨hlow, hhigh⟩, hl, hr', hne⟩ := (order h).rows r hr
    exact ⟨hasn, Known.ifaceName hi (hi.rowBorn r hr), hlow, hhigh, hl, hr', hne⟩
  · have ids := List.pairwise_map.mp hi.rowIds
    have names : s.world.peers.Pairwise fun p q => p.ifaceName ≠ q.ifaceName := by
      refine ids.imp_of_mem fun {p q} hp hq hne he => hne ?_
      rwa [Known.ifaceName hi (hi.rowBorn p hp), Known.ifaceName hi (hi.rowBorn q hq),
        wgpName_inj] at he
    have ports := List.pairwise_map.mp hi.rowPorts
    have pairs := List.pairwise_map.mp hi.rowPairs
    exact ids.and (ports.and (names.and pairs))
  · obtain ⟨b, hb, hbr⟩ := hi.rowBorn r hr
    refine ⟨b, ⟨hb, identity_peerId hbr, hbr⟩, fun c hc => ?_⟩
    exact List.inj_on_of_nodup_map hi.bornIds hc.1 hb (hc.2.1.trans (identity_peerId hbr).symm)
  · have hi' := (order (h.trans hs')).identified
    exact Known.identity_eq hi' (hi'.rowBorn r' hr')
      (Known.mono (reaches_born hs') (hi.rowBorn r hr)) hid

/-- A first start and a create with manual addresses, up to the insertion of the row. -/
def createRun : List Label :=
  .restart :: runs 0 9 ++
    .start (.createPeer 4242421111 "r1" ⟨"key"⟩ none
      (some (⟨0xfe80, 0, 0, 0, 0, 0, 0, 1⟩, ⟨0xfe80, 0, 0, 0, 0, 0, 0, 2⟩)) none) :: runs 1 6

def sampleParser (text : String) : Option Ipv6Addr :=
  if text = "fe80::1" then some ⟨0xfe80, 0, 0, 0, 0, 0, 0, 1⟩
  else if text = "fe80::2" then some ⟨0xfe80, 0, 0, 0, 0, 0, 0, 2⟩
  else none

/-- The rest of that create, and a second one up to the insertion of its row. -/
def secondRun : List Label :=
  runs 1 14 ++ .start (.createPeer 4242421112 "r1" ⟨"key"⟩ none none none) :: runs 2 6

lemma createRun_validated : ∀ l ∈ createRun, ∀ s, ValidatedStep sampleParser s l := by
  rintro l hl - op rfl
  simp only [createRun, runs, List.cons_append, List.mem_cons, List.mem_append, List.mem_replicate,
    reduceCtorEq, and_false, false_or, or_false, Label.start.injEq] at hl
  subst hl
  exact ⟨⟨"r1", by decide⟩, true, some "fe80::1", some "fe80::2", by decide⟩

lemma secondRun_validated : ∀ l ∈ secondRun, ∀ s, ValidatedStep sampleParser s l := by
  rintro l hl - op rfl
  simp only [secondRun, runs, List.mem_cons, List.mem_append, List.mem_replicate,
    reduceCtorEq, and_false, false_or, or_false, Label.start.injEq] at hl
  subst hl
  exact ⟨⟨"r1", by decide⟩, false, none, none, by decide⟩

/-- The first row becomes Active and keeps its identity; the second row has other keys. -/
theorem peers_table_createRun : ∃ s s',
    steps (step sampleConfig) createRun (System.stopped (emptyWorld [] [] ⟨none, ∅⟩)) = some s ∧
    steps (step sampleConfig) secondRun s = some s' ∧
    s.world.peers.map (fun r => (r.peerId, r.status)) = [(1, .provisioning)] ∧
    s'.world.peers.map (fun r => (r.peerId, r.status)) = [(1, .active), (2, .provisioning)] ∧
    (∀ r ∈ s'.world.peers, r.asn ≠ 4242420000 ∧ r.ifaceName = wgpName r.peerId ∧
      20000 ≤ r.listenPort.toNat ∧ r.listenPort.toNat ≤ 29999 ∧
      r.localLlIp.isUnicastLinkLocal = true ∧ r.remoteLlIp.isUnicastLinkLocal = true ∧
      r.localLlIp ≠ r.remoteLlIp) ∧
    (s'.world.peers.Pairwise fun p q => p.peerId ≠ q.peerId ∧ p.listenPort ≠ q.listenPort ∧
      p.ifaceName ≠ q.ifaceName ∧ p.pair ≠ q.pair) ∧
    ∀ r ∈ s.world.peers, ∀ r' ∈ s'.world.peers, r'.peerId = r.peerId → identity r' = identity r := by
  have ends : ((steps (step sampleConfig) createRun
      (System.stopped (emptyWorld [] [] ⟨none, ∅⟩))).bind fun s =>
        (steps (step sampleConfig) secondRun s).map fun s' =>
          (s.world.peers.map (fun r => (r.peerId, r.status)),
            s'.world.peers.map fun r => (r.peerId, r.status))) =
      some ([(1, .provisioning)], [(1, .active), (2, .provisioning)]) := by
    decide +kernel
  obtain ⟨s, hs, later⟩ := Option.bind_eq_some_iff.mp ends
  obtain ⟨s', hs', rows⟩ := Option.map_eq_some_iff.mp later
  obtain ⟨first, second⟩ := Prod.mk.inj rows
  have ran : Reaches (step sampleConfig) (ValidatedStep sampleParser)
      (System.stopped (emptyWorld [] [] ⟨none, ∅⟩)) s :=
    steps_reaches (Schedule.of_forall createRun_validated) hs
  have goes : Reaches (step sampleConfig) (ValidatedStep sampleParser) s s' :=
    steps_reaches (Schedule.of_forall secondRun_validated) hs'
  obtain ⟨-, -, -, kept⟩ := peers_table ran
  obtain ⟨valid, keys, -, -⟩ := peers_table (ran.trans goes)
  exact ⟨s, s', hs, hs', first, second, valid, keys, kept s' goes⟩

end Autopeer.TableInvariant
