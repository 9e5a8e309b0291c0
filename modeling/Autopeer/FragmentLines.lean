import Autopeer.Ipv6Text
import Autopeer.Template

/-! The BIRD fragment of a peer as a reader sees it, line by line: no inserted value starts a line
of its own, and the name of the peer stays in its comment. -/
namespace Autopeer.FragmentLines
open PeerData Template LineText

section Escaper

lemma mem_writeEscapedChar {c d : Char} (h : d ∈ writeEscapedChar c) :
    d ≠ '\n' ∧ d ≠ '\r' ∧ (d = c ∨ d = '\\' ∨ d = ' ') := by
  unfold writeEscapedChar at h
  split at h
  · rename_i hc
    simp only [List.mem_cons, List.not_mem_nil, or_false] at h
    rcases h with rfl | rfl
    · exact ⟨by decide, by decide, by simp⟩
    · exact ⟨by decide, by decide, .inl hc.symm⟩
  · split at h
    · simp only [List.mem_cons, List.not_mem_nil, or_false] at h
      have : d = '\\' := by tauto
      subst this
      exact ⟨by decide, by decide, by simp⟩
    · split at h
      · obtain rfl := List.mem_singleton.mp h
        exact ⟨by decide, by decide, by simp⟩
      · rename_i hbreak
        split at h
        · cases h
        · obtain rfl := List.mem_singleton.mp h
          rw [not_or] at hbreak
          exact ⟨hbreak.1, hbreak.2, .inl rfl⟩

/-- Whatever is inserted, it does not break the line. -/
theorem writeEscapedStr_oneLine (text : String) : OneLine (writeEscapedStr text) := by
  rw [writeEscapedStr, oneLine_ofList, List.mem_flatMap]
  rintro ⟨c, -, hc⟩
  exact (mem_writeEscapedChar hc).1 rfl

/-- The escaper neither adds nor removes single quotes. -/
theorem quote_mem_writeEscapedStr {text : String} :
    '\'' ∈ (writeEscapedStr text).toList ↔ '\'' ∈ text.toList := by
  rw [writeEscapedStr, String.toList_ofList, List.mem_flatMap]
  constructor
  · rintro ⟨c, hmem, hc⟩
    rcases (mem_writeEscapedChar hc).2.2 with rfl | h | h
    · exact hmem
    · exact absurd h (by decide)
    · exact absurd h (by decide)
  · intro h
    exact ⟨_, h, by decide⟩

/-- Digits and the characters of an address pass unchanged. -/
lemma writeEscapedStr_of_plain {text : String} (h : ∀ c ∈ text.toList, writeEscapedChar c = [c]) :
    writeEscapedStr text = text := by
  have hall : ∀ l : List Char, (∀ c ∈ l, writeEscapedChar c = [c]) →
      l.flatMap writeEscapedChar = l := by
    intro l hl
    induction l with
    | nil => rfl
    | cons c l ih =>
      rw [List.forall_mem_cons] at hl
      rw [List.flatMap_cons, hl.1, ih hl.2]
      rfl
  rw [writeEscapedStr, hall _ h, String.ofList_toList]

end Escaper

section Lines

/-- The lines that a reader finds in a text. -/
def textLines (text : String) : List String := (text.toList.splitOn '\n').map String.ofList

lemma textLines_lines {fs : List String} (hne : fs ≠ []) (h : ∀ f ∈ fs, OneLine f) :
    textLines (lines fs) = fs := by
  have hchars : ∀ l ∈ fs.map String.toList, '\n' ∉ l := by
    intro l hl
    obtain ⟨f, hf, rfl⟩ := List.mem_map.mp hl
    exact h f hf
  have hsplit := List.splitOn_intercalate '\n' hchars (by simpa using hne)
  rw [textLines, lines, String.toList_intercalate]
  have hsep : "\n".toList = ['\n'] := rfl
  rw [hsep, hsplit, List.map_map]
  simp

variable (t : PeerTemplate)

def headLine : String := "# Dynamically generated by DN42 Autopeer for AS" ++ writeEscapedStr (toString t.asn)

def nameLine : String :=
  "# Peer name: " ++ writeEscapedStr t.peerName ++ " (ID " ++ writeEscapedStr (toString t.peerId) ++ ")"

def neighborLine : String :=
  "  neighbor " ++ writeEscapedStr t.remoteLlIp.display ++ " % '" ++ writeEscapedStr t.iface ++
    "' as " ++ writeEscapedStr (toString t.asn) ++ ";"

def protocolLine : String :=
  "protocol bgp dn42_" ++ writeEscapedStr (toString t.asn) ++ "_" ++
    writeEscapedStr (toString t.peerId) ++ " \x7b"

/-- The lines after that of the name and before that of the neighbor. -/
def beforeNeighbor : List String :=
  ["# Interface: " ++ writeEscapedStr t.iface, "", protocolLine t,
    "  local " ++ writeEscapedStr t.localLlIp.display ++ " as " ++
      writeEscapedStr (toString t.localAsn) ++ ";"]

def afterNeighbor : List String :=
  let asn := writeEscapedStr (toString t.asn)
  let peerId := writeEscapedStr (toString t.peerId)
  ["  ",
    "  ipv6 \x7b",
    "    table dn42_v6;",
    "    import table;",
    "    import where dn42_import_from_peer(" ++ asn ++ ", " ++ peerId ++ ");",
    "    export where dn42_export_to_peer(" ++ asn ++ ", " ++ peerId ++ ");",
    "  \x7d;",
    "  ipv4 \x7b",
    "    table dn42_v4;",
    "    import table;",
    "    import where dn42_import_from_peer_v4(" ++ asn ++ ", " ++ peerId ++ ");",
    "    export where dn42_export_to_peer_v4(" ++ asn ++ ", " ++ peerId ++ ");",
    "    extended next hop on;",
    "  \x7d;",
    "\x7d"]

def fragment : List String :=
  headLine t :: nameLine t :: (beforeNeighbor t ++ neighborLine t :: afterNeighbor t)

lemma render_fragment : t.render = lines (fragment t) := by
  unfold PeerTemplate.render lines
  refine congrArg (String.intercalate "\n") ?_
  unfold fragment headLine nameLine beforeNeighbor neighborLine protocolLine afterNeighbor
  rfl

lemma fragment_oneLine : ∀ f ∈ fragment t, OneLine f := by
  unfold fragment headLine nameLine beforeNeighbor protocolLine neighborLine afterNeighbor
  simp only [-String.reduceAppend, List.cons_append, List.nil_append, List.forall_mem_cons,
    oneLine_append, writeEscapedStr_oneLine, and_true]
  refine ⟨?_, ?_, ?_, ?_, ?_, ?_, ?_, ?_, ?_, ?_, ?_, ?_, ?_, ?_, ?_, ?_, ?_, ?_, ?_, ?_, ?_, ?_,
    List.forall_mem_nil _⟩
  all_goals decide

/-- A reader finds the lines of the template, one for one. -/
theorem textLines_render : textLines t.render = fragment t := by
  rw [render_fragment]
  exact textLines_lines (List.cons_ne_nil _ _) (fragment_oneLine t)

end Lines

section Name
variable (t : PeerTemplate)

lemma nameLine_comment : (nameLine t).startsWith "# Peer name:" = true := by
  have hstart : "# Peer name:".toList <+: "# Peer name: ".toList := by decide
  have hline : "# Peer name: ".toList <+: (nameLine t).toList := by
    unfold nameLine
    rw [String.append_assoc, String.append_assoc, String.append_assoc, String.toList_append]
    exact List.prefix_append _ _
  exact String.startsWith_string_iff.mpr (hstart.trans hline)

/-- Whatever the name is, it shows on one line only, and this line is a comment. -/
theorem peer_name_stays (first second : String) :
    (textLines { t with peerName := first }.render).length =
        (textLines { t with peerName := second }.render).length ∧
      (∀ i, i ≠ 1 → (textLines { t with peerName := first }.render)[i]? =
        (textLines { t with peerName := second }.render)[i]?) ∧
      ∃ line line', (textLines { t with peerName := first }.render)[1]? = some line ∧
        (textLines { t with peerName := second }.render)[1]? = some line' ∧
        line.startsWith "# Peer name:" = true ∧ line'.startsWith "# Peer name:" = true := by
  simp only [textLines_render]
  refine ⟨rfl, fun i hi => ?_, nameLine { t with peerName := first },
    nameLine { t with peerName := second }, rfl, rfl, nameLine_comment _, nameLine_comment _⟩
  match i, hi with
  | 0, _ => rfl
  | 1, hi => exact absurd rfl hi
  | i + 2, _ => rfl

end Name

section Quotes
variable (t : PeerTemplate)

/-- A reader of a line with a quoted symbol: the symbol ends at the first quote after the one that
opens it; the rest of the line follows. -/
def quotedSymbol (line : String) : String × String :=
  let inside := (line.toList.dropWhile (· ≠ '\'')).tail
  (String.ofList (inside.takeWhile (· ≠ '\'')), String.ofList (inside.dropWhile (· ≠ '\'')).tail)

/-- The interface name is quoted safely: what is written has no quote and no line break, and a
reader of the neighbor line finds it whole, and then the AS number of the template. -/
def SafelyQuoted : Prop :=
  '\'' ∉ (writeEscapedStr t.iface).toList ∧ OneLine (writeEscapedStr t.iface) ∧
    ∃ line, (textLines t.render)[6]? = some line ∧
      quotedSymbol line = (writeEscapedStr t.iface, " as " ++ writeEscapedStr (toString t.asn) ++ ";")

lemma quotedSymbol_eq {before symbol rest : String} (hb : '\'' ∉ before.toList)
    (hs : '\'' ∉ symbol.toList) :
    quotedSymbol (before ++ "'" ++ symbol ++ "'" ++ rest) = (symbol, rest) := by
  have hquote : "'".toList = ['\''] := rfl
  have hline : (before ++ "'" ++ symbol ++ "'" ++ rest).toList =
      before.toList ++ '\'' :: (symbol.toList ++ '\'' :: rest.toList) := by
    simp only [String.toList_append, hquote, List.append_assoc, List.cons_append, List.nil_append]
  have hskip : ∀ l : List Char, '\'' ∉ l → ∀ m, (l ++ '\'' :: m).dropWhile (· ≠ '\'') = '\'' :: m ∧
      (l ++ '\'' :: m).takeWhile (· ≠ '\'') = l := by
    intro l hl m
    have hne : ∀ c ∈ l, (decide (c ≠ '\'')) = true := by
      intro c hc
      rw [decide_eq_true_eq]
      rintro rfl
      exact hl hc
    rw [List.dropWhile_append_of_pos hne, List.takeWhile_append_of_pos hne]
    simp
  obtain ⟨hdrop, -⟩ := hskip _ hb (symbol.toList ++ '\'' :: rest.toList)
  obtain ⟨hdrop', htake'⟩ := hskip _ hs rest.toList
  unfold quotedSymbol
  simp only [hline, hdrop, List.tail_cons, hdrop', htake', String.ofList_toList]

lemma neighborLine_eq : neighborLine t = "  neighbor " ++ writeEscapedStr t.remoteLlIp.display ++ " % " ++
    "'" ++ writeEscapedStr t.iface ++ "'" ++ (" as " ++ writeEscapedStr (toString t.asn) ++ ";") := by
  have hopen : " % '" = " % " ++ "'" := by decide
  have hclose : "' as " = "'" ++ " as " := by decide
  unfold neighborLine
  rw [hopen, hclose]
  simp only [String.append_assoc]

lemma quote_notMem_display (a : Ipv6.Ipv6Addr) : '\'' ∉ a.display.toList :=
  Ipv6Text.notMem_display (fun _ => Nat.digitChar_ne _ (by decide)) (by decide) (by decide) a

/-- A name is quoted safely exactly when it has no single quote of its own. -/
theorem safelyQuoted_iff : SafelyQuoted t ↔ '\'' ∉ t.iface.toList := by
  constructor
  · intro h
    rw [← quote_mem_writeEscapedStr]
    exact h.1
  · intro h
    have hname : '\'' ∉ (writeEscapedStr t.iface).toList := by
      rwa [quote_mem_writeEscapedStr]
    refine ⟨hname, writeEscapedStr_oneLine _, neighborLine t, ?_, ?_⟩
    · rw [textLines_render]
      rfl
    · have hbefore : '\'' ∉ ("  neighbor " ++ writeEscapedStr t.remoteLlIp.display ++ " % ").toList := by
        simp only [String.toList_append, List.mem_append, quote_mem_writeEscapedStr, not_or]
        exact ⟨⟨by decide, quote_notMem_display _⟩, by decide⟩
      rw [neighborLine_eq, quotedSymbol_eq hbefore hname]

/-- The name of the test of the escaper: its quote ends the symbol. -/
def injectedIface : String := "wg-peer';\n  include \"/etc/shadow\";\n  #"

theorem injected_not_quoted : ¬SafelyQuoted {
    peerId := 7
    peerName := "fra1"
    asn := 4242421234
    localAsn := 4242420291
    iface := injectedIface
    localLlIp := ⟨0xfe80, 0, 0, 0, 0, 0, 0, 1⟩
    remoteLlIp := ⟨0xfe80, 0, 0, 0, 0, 0, 0, 2⟩ } := by
  intro h
  have hquote : '\'' ∈ injectedIface.toList := by decide
  exact h.1 (quote_mem_writeEscapedStr.mpr hquote)

end Quotes

end Autopeer.FragmentLines
