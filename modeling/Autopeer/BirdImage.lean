import Autopeer.BirdTriples
import Autopeer.FragmentLines

/-! The BIRD files of a peers list: one for each enabled peer and each with a protocol of its own,
in any order of the list. A list with a wrong interface name changes nothing. -/
namespace Autopeer.BirdImage
open PeerData ProgramTree ProgramRuns ProgramTriples Template LineText FragmentLines BirdGeneration
open BirdCalls BirdTriples
open BirdFiles (emptyPath)

section Protocols

/-- The name of the protocol that a line opens. -/
def protocolName (line : String) : Option String :=
  if "protocol bgp ".toList <+: line.toList then
    some (String.ofList ((line.toList.drop "protocol bgp ".length).takeWhile (· ≠ ' ')))
  else none

/-- The protocols that the text of a file defines. -/
def protocolNames (text : String) : List String := (textLines text).filterMap protocolName

/-- The line starts with another letter. -/
def Other (line : String) : Prop := line.toList ≠ [] ∧ line.toList.head? ≠ some 'p'

instance (line : String) : Decidable (Other line) := inferInstanceAs (Decidable (_ ∧ _))

lemma Other.append {first second : String} (h : Other first) : Other (first ++ second) := by
  obtain ⟨hne, hp⟩ := h
  rw [Other, String.toList_append]
  exact ⟨List.append_ne_nil_of_left_ne_nil hne _, by rwa [List.head?_append_of_ne_nil _ hne]⟩

lemma Other.protocolName {line : String} (h : Other line) : protocolName line = none := by
  refine if_neg fun hstart => h.2 ?_
  obtain ⟨rest, hrest⟩ := hstart
  rw [← hrest]
  rfl

lemma protocolName_line {name rest : String} (h : ' ' ∉ name.toList) :
    protocolName ("protocol bgp " ++ name ++ " " ++ rest) = some name := by
  have hspace : " ".toList = [' '] := rfl
  have hline : ("protocol bgp " ++ name ++ " " ++ rest).toList =
      "protocol bgp ".toList ++ (name.toList ++ ' ' :: rest.toList) := by
    simp only [String.toList_append, hspace, List.append_assoc, List.cons_append, List.nil_append]
  have hword : ∀ c ∈ name.toList, decide (c ≠ ' ') = true := by
    intro c hc
    rw [decide_eq_true_eq]
    rintro rfl
    exact h hc
  have hread : (name.toList ++ ' ' :: rest.toList).takeWhile (· ≠ ' ') = name.toList := by
    rw [List.takeWhile_append_of_pos hword]
    simp
  have hlen : "protocol bgp ".length = "protocol bgp ".toList.length := by decide
  rw [protocolName, hline, if_pos (List.prefix_append _ _), hlen, List.drop_left, hread,
    String.ofList_toList]

end Protocols

section Digits
variable (n : UInt32)

/-- The escaper leaves a number as it is. -/
lemma writeEscapedStr_toString : writeEscapedStr (toString n) = toString n := by
  apply writeEscapedStr_of_plain
  intro c hc
  have digit := isDigit_natRepr c hc
  have ne : ∀ d : Char, d.isDigit = false → c ≠ d := by
    rintro d hd rfl
    rw [digit] at hd
    cases hd
  have range : 48 ≤ c.val ∧ c.val ≤ 57 := by simpa [Char.isDigit] using digit
  have low : 48 ≤ c.toNat := UInt32.le_iff_toNat_le.mp range.1
  have high : c.toNat ≤ 57 := UInt32.le_iff_toNat_le.mp range.2
  have control : isAsciiControl c = false := by
    rw [isAsciiControl, Bool.or_eq_false_iff, decide_eq_false_iff_not, decide_eq_false_iff_not]
    omega
  rw [writeEscapedChar, if_neg (ne _ (by decide)), if_neg (ne _ (by decide)),
    if_neg (not_or.mpr ⟨ne _ (by decide), ne _ (by decide)⟩), control]
  rfl

end Digits

section Fragments

/-- The protocol of a peer. -/
def protocolOf (p : Peer) : String := "dn42_" ++ toString p.asn ++ "_" ++ toString p.peerId

lemma space_notMem_protocolOf (p : Peer) : ' ' ∉ (protocolOf p).toList := by
  simp only [protocolOf, String.toList_append, List.mem_append, not_or]
  exact ⟨⟨⟨by decide, notMem_natRepr (by decide)⟩, by decide⟩, notMem_natRepr (by decide)⟩

/-- The underscore ends the number of the AS, so the rest is the id. -/
theorem protocolOf_ne {p q : Peer} (h : p.peerId ≠ q.peerId) : protocolOf p ≠ protocolOf q := by
  intro heq
  have hunder : "_".toList = ['_'] := rfl
  have hs := congrArg String.toList heq
  simp only [protocolOf, String.toList_append, List.append_assoc, List.append_cancel_left_eq,
    hunder, List.cons_append, List.nil_append] at hs
  have hsplit := congrArg (List.splitOn '_') hs
  have bare : ∀ n : UInt32, '_' ∉ (toString n).toList := fun n => notMem_natRepr (by decide)
  rw [List.splitOn_append_cons_self_of_not_mem (bare _),
    List.splitOn_append_cons_self_of_not_mem (bare _)] at hsplit
  have hasn := (List.cons.inj hsplit).1
  rw [hasn, List.append_cancel_left_eq] at hs
  exact h (uInt32_toString_injective (String.toList_inj.mp (List.cons.inj hs).2))

variable (t : PeerTemplate)

lemma afterNeighbor_other : ∀ f ∈ afterNeighbor t, Other f := by
  unfold afterNeighbor
  simp only [-String.reduceAppend, List.forall_mem_cons]
  refine ⟨?_, ?_, ?_, ?_, ?_, ?_, ?_, ?_, ?_, ?_, ?_, ?_, ?_, ?_, ?_, List.forall_mem_nil _⟩
  all_goals first | decide | exact .append (.append (.append (.append (by decide))))

lemma headLine_other : Other (headLine t) := by
  unfold headLine
  exact .append (by decide)

lemma nameLine_other : Other (nameLine t) := by
  unfold nameLine
  exact .append (.append (.append (.append (by decide))))

lemma neighborLine_other : Other (neighborLine t) := by
  unfold neighborLine
  exact .append (.append (.append (.append (.append (.append (by decide))))))

/-- Before the neighbor there is the line of the protocol. -/
lemma protocolNames_beforeNeighbor :
    (beforeNeighbor t).filterMap protocolName = (protocolName (protocolLine t)).toList := by
  have hempty : protocolName "" = none := by decide
  have hiface : protocolName ("# Interface: " ++ writeEscapedStr t.iface) = none :=
    Other.protocolName (.append (by decide))
  have hlocal : protocolName ("  local " ++ writeEscapedStr t.localLlIp.display ++ " as " ++
      writeEscapedStr (toString t.localAsn) ++ ";") = none :=
    Other.protocolName (.append (.append (.append (.append (by decide)))))
  unfold beforeNeighbor
  rw [List.filterMap_cons_none hiface, List.filterMap_cons_none hempty, List.filterMap_cons]
  cases protocolName (protocolLine t) with
  | none => exact List.filterMap_cons_none hlocal
  | some name =>
    simp only [List.filterMap_cons_none hlocal]
    rfl

/-- The fragment of a peer defines its protocol and no other. -/
theorem protocolNames_render (localAsn : UInt32) (p : Peer) :
    protocolNames (renderPeerConfig localAsn p) = [protocolOf p] := by
  have none : ∀ fs : List String, (∀ f ∈ fs, Other f) → fs.filterMap protocolName = [] :=
    fun fs h => List.filterMap_eq_nil_iff.mpr fun f hf => (h f hf).protocolName
  have hline : ∀ t : PeerTemplate, t.asn = p.asn → t.peerId = p.peerId →
      protocolName (protocolLine t) = some (protocolOf p) := by
    intro t hasn hid
    have hclose : " \x7b" = " " ++ "\x7b" := by decide
    have hopen : "protocol bgp dn42_" = "protocol bgp " ++ "dn42_" := by decide
    have heq : protocolLine t = "protocol bgp " ++ protocolOf p ++ " " ++ "\x7b" := by
      unfold protocolLine protocolOf
      rw [writeEscapedStr_toString, writeEscapedStr_toString, hasn, hid, hclose, hopen]
      simp only [String.append_assoc]
    rw [heq]
    exact protocolName_line (space_notMem_protocolOf p)
  rw [renderPeerConfig, protocolNames, textLines_render, fragment,
    List.filterMap_cons_none (headLine_other _).protocolName,
    List.filterMap_cons_none (nameLine_other _).protocolName, List.filterMap_append,
    protocolNames_beforeNeighbor, hline _ rfl rfl,
    List.filterMap_cons_none (neighborLine_other _).protocolName, none _ (afterNeighbor_other _)]
  rfl

end Fragments

section Image
variable {localAsn : UInt32} {peers : List Peer}

/-- One file for each enabled peer. -/
lemma rendering_keys (h : NamesDistinct (peers.filter Peer.enabled)) :
    (rendering localAsn peers).keys.Perm ((peers.filter Peer.enabled).map confName) := by
  have hkeys : ∀ name, name ∈ (rendering localAsn peers).keys ↔
      name ∈ (peers.filter Peer.enabled).map confName := by
    intro name
    rw [Std.ExtTreeMap.mem_keys, Std.ExtTreeMap.mem_iff_isSome_getElem?, Option.isSome_iff_exists]
    simp only [rendering_get h, List.mem_map, List.mem_filter]
    constructor
    · rintro ⟨-, p, hp, he, hname, -⟩
      exact ⟨p, ⟨hp, he⟩, hname⟩
    · rintro ⟨p, ⟨hp, he⟩, hname⟩
      exact ⟨_, p, hp, he, hname, rfl⟩
  exact (List.perm_ext_iff_of_nodup Std.ExtTreeMap.nodup_keys (List.pairwise_map.mpr h)).mpr hkeys

/-- Different files define different protocols. -/
lemma rendering_protocols (valid : NamesValid peers)
    (h : NamesDistinct (peers.filter Peer.enabled)) {name name' content content' : String}
    (hc : (rendering localAsn peers)[name]? = some content)
    (hc' : (rendering localAsn peers)[name']? = some content') (hne : name ≠ name') :
    ∃ protocol protocol', protocolNames content = [protocol] ∧
      protocolNames content' = [protocol'] ∧ protocol ≠ protocol' := by
  obtain ⟨p, hp, he, rfl, rfl⟩ := (rendering_get h).mp hc
  obtain ⟨q, hq, he', rfl, rfl⟩ := (rendering_get h).mp hc'
  refine ⟨_, _, protocolNames_render localAsn p, protocolNames_render localAsn q, protocolOf_ne ?_⟩
  intro hid
  exact hne ((confName_eq_iff (valid p hp he) (valid q hq he')).mpr hid)

lemma desiredGeneration_perm {peers' : List Peer} (valid : NamesValid peers)
    (ids : peers.Pairwise fun p q => p.peerId ≠ q.peerId) (perm : peers'.Perm peers) :
    desiredGeneration localAsn peers' = .ok (rendering localAsn peers) := by
  have valid' : NamesValid peers' := fun p hp => valid p (perm.mem_iff.mp hp)
  have ids' : peers'.Pairwise fun p q => p.peerId ≠ q.peerId :=
    perm.symm.pairwise ids fun h => h.symm
  rw [desiredGeneration_ok valid']
  exact congrArg Except.ok (rendering_ext (namesDistinct_of_ids valid' ids')
    (namesDistinct_of_ids valid ids) fun p => perm.mem_iff)

/-- A list that does not render ends the call right after the layout. -/
lemma must_invalid {P : BirdCall → BirdOutcome → Prop} {d : BirdDisk} {pid : ℕ} {forceReload : Bool}
    (h : ¬NamesValid peers) :
    Must exec P (fun _ => True) (syncBirdConfigsFor localAsn pid peers forceReload).run d
      fun r d' => (∃ error, r = .error error) ∧ Laid d d' := by
  apply Must.bind must_ensureBirdLayout
  · rintro _ d' ⟨laid, -⟩
    cases hd : desiredGeneration localAsn peers with
    | ok desired => exact absurd (desiredGeneration_inv hd).1 h
    | error error => exact ⟨⟨error, rfl⟩, laid⟩
  · rintro error d' ⟨laid, -⟩
    exact ⟨⟨error, rfl⟩, laid⟩

/-- What a missing layout leads to is the only thing that may change under `current`. -/
lemma current_of_laid {d d' : BirdDisk} (laid : Laid d d') {target : String}
    (linked : d.tree.links["current"]? = some target) :
    d'.tree.links["current"]? = some target ∧
      ∀ files, d.tree.directories[target]? = some files →
        d'.tree.directories[target]? = some files := by
  constructor
  · rcases laid.current with heq | ⟨missing, -⟩
    · exact heq.trans linked
    · cases missing.symm.trans linked
  · intro files hf
    by_cases hempty : target = emptyPath
    · subst hempty
      rcases laid.empty with heq | ⟨missing, -⟩
      · exact heq.trans hf
      · cases missing.symm.trans hf
    · exact (laid.directories target hempty).trans hf

/-- The rendered files are a faithful image of the list, and a list with a wrong name renders
nothing. -/
theorem bird_image (localAsn : UInt32) (peers : List Peer) :
    (peers.Pairwise (fun p q => p.peerId ≠ q.peerId) → NamesValid peers →
      ∃ desired, desiredGeneration localAsn peers = .ok desired ∧
        desired.keys.Perm ((peers.filter Peer.enabled).map confName) ∧
        (∀ name content : String, desired[name]? = some content ↔
          ∃ p ∈ peers, p.enabled ∧ confName p = name ∧ renderPeerConfig localAsn p = content) ∧
        (∀ name name' content content' : String, desired[name]? = some content →
          desired[name']? = some content' → name ≠ name' →
          ∃ protocol protocol', protocolNames content = [protocol] ∧
            protocolNames content' = [protocol'] ∧ protocol ≠ protocol') ∧
        ∀ peers', peers'.Perm peers → desiredGeneration localAsn peers' = .ok desired) ∧
      ((∃ p ∈ peers, p.enabled ∧ p.ifaceName ≠ wgpName p.peerId) →
        ∀ P pid forceReload d r d',
          Ends exec P d (syncBirdConfigsFor localAsn pid peers forceReload).run r d' →
          (∃ error, r = .error error) ∧ d'.loaded = d.loaded ∧ Laid d d' ∧
            ∀ target, d.tree.links["current"]? = some target →
              d'.tree.links["current"]? = some target ∧
                ∀ files, d.tree.directories[target]? = some files →
                  d'.tree.directories[target]? = some files) := by
  constructor
  · intro ids valid
    have distinct := namesDistinct_of_ids valid ids
    refine ⟨_, desiredGeneration_ok valid, rendering_keys distinct, fun _ _ => rendering_get distinct,
      ?_, fun peers' perm => desiredGeneration_perm valid ids perm⟩
    intro name name' content content' hc hc' hne
    exact rendering_protocols valid distinct hc hc' hne
  · rintro ⟨p, hp, he, hname⟩ P pid forceReload d r d' run
    have invalid : ¬NamesValid peers := fun valid => hname (valid p hp he)
    obtain ⟨failed, laid⟩ := (must_invalid invalid).ends run
    exact ⟨failed, laid.loaded, laid, fun target linked => current_of_laid laid linked⟩

def sampleRow (peerId : UInt32) (ifaceName : String) (status : PeerStatus) : Peer :=
  { peerId, peerName := "r1", ifaceName, asn := 4242421111, pubkey := ⟨"key"⟩, endpoint := none,
    localLlIp := ⟨0xfe80, 0, 0, 0, 0, 0, 0, 1⟩, remoteLlIp := ⟨0xfe80, 0, 0, 0, 0, 0, 0, 2⟩, status,
    listenPort := 21111, mtu := 1420 }

/-- Rows 1 and 12 of one AS, one of them disabled; and an empty disk on which row 1 has the name of
row 2. -/
theorem bird_image_sample :
    (∃ desired, desiredGeneration 4242420000
        [sampleRow 1 "wgp1" .active, sampleRow 12 "eth0" .disabled, sampleRow 2 "wgp2" .provisioning] =
          .ok desired ∧ desired.keys.Perm ["wgp1.conf", "wgp2.conf"]) ∧
      ∃ r d', Ends exec (fun _ _ => True) ⟨⟨∅, ∅⟩, ∅⟩
          (syncBirdConfigsFor 4242420000 1 [sampleRow 1 "wgp2" .active] false).run r d' ∧
        d'.tree.links["current"]? = some emptyPath ∧ (∃ error, r = .error error) ∧ d'.loaded = ∅ := by
  constructor
  · have valid : NamesValid [sampleRow 1 "wgp1" .active, sampleRow 12 "eth0" .disabled,
        sampleRow 2 "wgp2" .provisioning] := by
      unfold NamesValid
      decide
    obtain ⟨desired, hd, hkeys, -⟩ := (bird_image 4242420000 [sampleRow 1 "wgp1" .active,
      sampleRow 12 "eth0" .disabled, sampleRow 2 "wgp2" .provisioning]).1 (by decide) valid
    exact ⟨desired, hd, hkeys⟩
  · have run : (runWith allWork (syncBirdConfigsFor 4242420000 1 [sampleRow 1 "wgp2" .active] false).run
        ⟨⟨∅, ∅⟩, ∅⟩).map (fun a => a.2.tree.links["current"]?) = some (some emptyPath) := by
      decide +kernel
    obtain ⟨⟨r, d'⟩, hrun, hlink⟩ := Option.map_eq_some_iff.mp run
    have ends : Ends exec (fun _ _ => True) ⟨⟨∅, ∅⟩, ∅⟩
        (syncBirdConfigsFor 4242420000 1 [sampleRow 1 "wgp2" .active] false).run r d' :=
      runWith_ends id allWork_exec hrun
    obtain ⟨failed, loaded, -⟩ := (bird_image 4242420000 [sampleRow 1 "wgp2" .active]).2
      (by decide) _ _ _ _ _ _ ends
    exact ⟨r, d', ends, hlink, failed, loaded⟩

end Image

end Autopeer.BirdImage
