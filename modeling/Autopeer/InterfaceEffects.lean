import Autopeer.ManagerRules

/-! What the manager does to the interfaces: an interface set up for a peer, interfaces removed,
and the other interfaces left alone. -/
namespace Autopeer.InterfaceEffects
open PeerData ProgramTree ProgramRuns ManagerWorld ManagerPrograms ManagerEffects ManagerRules

variable {w w' : World} {p q : Peer} {name : String} {i : Iface} {endpoint : Option SocketAddr}

section Links

@[simp] lemma addLink_toTables : (w.addLink name).toTables = w.toTables := by
  rw [World.addLink]
  split <;> rfl

@[simp] lemma addLink_nft : (w.addLink name).nft = w.nft := by
  rw [World.addLink]
  split <;> rfl

@[simp] lemma addLink_bird : (w.addLink name).bird = w.bird := by
  rw [World.addLink]
  split <;> rfl

@[simp] lemma addLink_locks : (w.addLink name).locks = w.locks := by
  rw [World.addLink]
  split <;> rfl

lemma hasIface_iff : w.hasIface name = true ↔ ∃ i ∈ w.ifaces, i.name = name := by
  simp [World.hasIface]

lemma addLink_hasIface : (w.addLink name).hasIface name = true := by
  rw [World.addLink]
  split
  · assumption
  · simp [World.hasIface, newLink]

lemma mem_addLink_of_ne (h : i.name ≠ name) : i ∈ (w.addLink name).ifaces ↔ i ∈ w.ifaces := by
  rw [World.addLink]
  split
  · rfl
  · have hi : i ≠ newLink name := fun he => h (by rw [he, newLink])
    simp [hi]

lemma mem_setIface {f : Iface → Iface} : i ∈ (w.setIface name f).ifaces ↔
    (i ∈ w.ifaces ∧ i.name ≠ name) ∨ ∃ j ∈ w.ifaces, j.name = name ∧ f j = i := by
  simp only [World.setIface, List.mem_map]
  constructor
  · rintro ⟨j, hj, rfl⟩
    split_ifs with h
    · exact .inr ⟨j, hj, h, rfl⟩
    · exact .inl ⟨hj, h⟩
  · rintro (⟨hi, hne⟩ | ⟨j, hj, hn, rfl⟩)
    · exact ⟨i, hi, by simp [hne]⟩
    · exact ⟨j, hj, by simp [hn]⟩

lemma mem_setIface_of_ne {f : Iface → Iface} (hf : ∀ j, (f j).name = j.name) (h : i.name ≠ name) :
    i ∈ (w.setIface name f).ifaces ↔ i ∈ w.ifaces := by
  rw [mem_setIface]
  constructor
  · rintro (⟨hi, -⟩ | ⟨j, hj, hn, rfl⟩)
    · exact hi
    · exact absurd ((hf j).trans hn) h
  · exact fun hi => .inl ⟨hi, h⟩

lemma setIface_hasIface {f : Iface → Iface} (hf : ∀ j, (f j).name = j.name) {other : String} :
    (w.setIface name f).hasIface other = w.hasIface other := by
  simp only [World.hasIface, World.setIface, List.any_map]
  congr 1
  funext j
  simp only [Function.comp_apply]
  split <;> simp [hf]

lemma mem_dropIface : i ∈ (w.dropIface name).ifaces ↔ i ∈ w.ifaces ∧ i.name ≠ name := by
  simp [World.dropIface]

end Links

/-- The settings that `apply_wireguard` gives to the interface of `p`. -/
structure SetUp (endpoint : Option SocketAddr) (p : Peer) (i : Iface) : Prop where
  ifAlias : i.ifAlias = some (aliasPrefix ++ toString p.peerId)
  mtu : i.mtu = some p.mtu
  pubkey : i.pubkey = some p.pubkey
  listenPort : i.listenPort = some p.listenPort
  endpoint : i.endpoint = endpoint
  address : p.localLlIp ∈ i.addresses

/-- The interface of `p` exists and has its settings, with this endpoint address. -/
def ConfiguredAt (endpoint : Option SocketAddr) (p : Peer) (w : World) : Prop :=
  w.hasIface p.ifaceName = true ∧ ∀ i ∈ w.ifaces, i.name = p.ifaceName → SetUp endpoint p i

/-- The same with some address of the endpoint of `p`, if it has one. -/
def Configured (p : Peer) (w : World) : Prop :=
  ∃ endpoint, endpoint.isSome = p.endpoint.isSome ∧ ConfiguredAt endpoint p w

/-- The interfaces not named `name` are the same. -/
def SameBut (name : String) (w w' : World) : Prop :=
  ∀ i : Iface, i.name ≠ name → (i ∈ w'.ifaces ↔ i ∈ w.ifaces)

/-- Only the interfaces with the name of the peer matter. -/
lemma ConfiguredAt.of_named (h : ConfiguredAt endpoint p w)
    (hs : ∀ i : Iface, i.name = p.ifaceName → (i ∈ w'.ifaces ↔ i ∈ w.ifaces)) :
    ConfiguredAt endpoint p w' := by
  obtain ⟨i, hi, hin⟩ := hasIface_iff.mp h.1
  exact ⟨hasIface_iff.mpr ⟨i, (hs i hin).mpr hi, hin⟩, fun j hj hjn => h.2 j ((hs j hjn).mp hj) hjn⟩

lemma ConfiguredAt.same_but (h : ConfiguredAt endpoint p w) (hs : SameBut name w w')
    (hne : p.ifaceName ≠ name) : ConfiguredAt endpoint p w' :=
  h.of_named fun i hi => hs i (hi ▸ hne)

lemma SameBut.symm (h : SameBut name w w') : SameBut name w' w := fun i hi => (h i hi).symm

lemma ConfiguredAt.ifaces_eq (h : ConfiguredAt endpoint p w) (he : w'.ifaces = w.ifaces) :
    ConfiguredAt endpoint p w' := by
  rwa [ConfiguredAt, World.hasIface, he]

lemma Configured.ifaces_eq (h : Configured p w) (he : w'.ifaces = w.ifaces) : Configured p w' := by
  obtain ⟨endpoint, hs, hc⟩ := h
  exact ⟨endpoint, hs, hc.ifaces_eq he⟩

/-- The interface of `p` exists and carries its alias and MTU. -/
def linked (p : Peer) (w : World) : World :=
  (w.addLink p.ifaceName).setIface p.ifaceName fun i =>
    { i with ifAlias := some (aliasPrefix ++ toString p.peerId), mtu := some p.mtu }

lemma linked_hasIface : (linked p w).hasIface p.ifaceName = true := by
  rw [linked, setIface_hasIface (by simp), addLink_hasIface]

lemma linked_sameBut : SameBut p.ifaceName w (linked p w) := by
  intro i hi
  rw [linked, mem_setIface_of_ne (by simp) hi, mem_addLink_of_ne hi]

/-- The world after `apply_wireguard` on `p`. -/
def wired (p : Peer) (endpoint : Option SocketAddr) (w : World) : World :=
  ((linked p w).setIface p.ifaceName fun i =>
    { i with pubkey := some p.pubkey, endpoint := endpoint, listenPort := some p.listenPort }).setIface
      p.ifaceName fun i =>
        { i with addresses := i.addresses.filter (· ≠ p.localLlIp) ++ [p.localLlIp] }

@[simp] lemma linked_toTables : (linked p w).toTables = w.toTables := addLink_toTables

@[simp] lemma linked_nft : (linked p w).nft = w.nft := addLink_nft

@[simp] lemma linked_bird : (linked p w).bird = w.bird := addLink_bird

@[simp] lemma linked_locks : (linked p w).locks = w.locks := addLink_locks

@[simp] lemma wired_toTables : (wired p endpoint w).toTables = w.toTables := addLink_toTables

@[simp] lemma wired_nft : (wired p endpoint w).nft = w.nft := addLink_nft

@[simp] lemma wired_bird : (wired p endpoint w).bird = w.bird := addLink_bird

@[simp] lemma wired_locks : (wired p endpoint w).locks = w.locks := addLink_locks

lemma wired_sameBut : SameBut p.ifaceName w (wired p endpoint w) := by
  intro i hi
  rw [wired, mem_setIface_of_ne (by simp) hi, mem_setIface_of_ne (by simp) hi, linked_sameBut i hi]

theorem wired_configuredAt : ConfiguredAt endpoint p (wired p endpoint w) := by
  constructor
  · rw [wired, setIface_hasIface (by simp), setIface_hasIface (by simp)]
    exact linked_hasIface
  · intro i hi hn
    rcases mem_setIface.mp hi with ⟨-, hne⟩ | ⟨j, hj, hjn, rfl⟩
    · exact absurd hn hne
    rcases mem_setIface.mp hj with ⟨-, hne⟩ | ⟨k, hk, hkn, rfl⟩
    · exact absurd hjn hne
    rcases mem_setIface.mp hk with ⟨-, hne⟩ | ⟨l, hl, hln, rfl⟩
    · exact absurd hkn hne
    exact ⟨rfl, rfl, rfl, rfl, rfl, by simp⟩

section Alone
variable {cfg : Config} {P : Call → Outcome → Prop}

lemma resolveOptional_ends {text : Option String} {address : Option SocketAddr}
    (h : Ends (exec cfg) P w (resolveOptional text).run (.ok address) w') :
    w' = w ∧ address.isSome = text.isSome := by
  cases text with
  | none =>
    obtain ⟨ha, rfl⟩ := ends_done.mp h
    cases ha
    exact ⟨rfl, rfl⟩
  | some text =>
    obtain ⟨a, v, hr, hend⟩ := Ends.bind_ok h
    obtain ⟨he, rfl⟩ := ends_done.mp hend
    cases he
    obtain ⟨o, r, u, -, hx, hd⟩ := ends_call.mp hr
    obtain ⟨-, rfl⟩ := ends_done.mp hd
    cases o <;> simp only [exec, reduceCtorEq, Option.some.injEq, Prod.mk.injEq] at hx
    · exact ⟨hx.2.symm, rfl⟩
    · exact ⟨hx.2.symm, rfl⟩

/-- `apply_wireguard` that ends well has set up the interface and done nothing else. -/
theorem applyWireguard_ends (h : Ends (exec cfg) P w (applyWireguard p).run (.ok ()) w') :
    ∃ endpoint, endpoint.isSome = p.endpoint.isSome ∧ w' = wired p endpoint w := by
  obtain ⟨_, w₁, h₁, rest₁⟩ := guard_ends h
  obtain ⟨endpoint, w₂, h₂, rest₂⟩ := Ends.bind_ok rest₁
  obtain ⟨_, w₃, h₃, rest₃⟩ := guard_ends rest₂
  obtain ⟨-, rfl⟩ := Prod.mk.inj h₁
  obtain ⟨rfl, hsome⟩ := resolveOptional_ends h₂
  have h₄ := io_ends rest₃
  simp only [effect] at h₃
  split at h₃
  · obtain ⟨-, rfl⟩ := Prod.mk.inj h₃
    simp only [effect] at h₄
    split at h₄
    · obtain ⟨-, rfl⟩ := Prod.mk.inj h₄
      exact ⟨endpoint, hsome, rfl⟩
    · cases (Prod.mk.inj h₄).1
  · cases (Prod.mk.inj h₃).1

end Alone

end Autopeer.InterfaceEffects
