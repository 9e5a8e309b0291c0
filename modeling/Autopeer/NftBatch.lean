import Autopeer.ManagerEffects
import Autopeer.LineText

/-! The batch that `sync_nft_ports_for` gives to nft, and what nft does with it: it reads the text
command by command and changes the set of ports. -/
namespace Autopeer.NftBatch
open PeerData ManagerPrograms LineText

/-- The text of the batch; its end of line is the last character of each command. -/
def nftPortBatch (ports : List UInt16) : String :=
  let batch := "flush set inet nixos-fw autopeer-ports\n"
  if ports = [] then batch
  else
    batch ++ ("add element inet nixos-fw autopeer-ports \x7b " ++
      String.intercalate ", " (ports.map toString) ++ " \x7d\n")

def syncBatch (peers : List Peer) : String := nftPortBatch (nftPorts peers)

section Reader

inductive Command
  | flush
  | add (elements : List UInt16)
  deriving DecidableEq

def stripSpaces (word : List Char) : List Char :=
  ((word.dropWhile (· = ' ')).reverse.dropWhile (· = ' ')).reverse

/-- A decimal port; an element without digits is no element. -/
def readPort (word : List Char) : Option UInt16 :=
  let digits := stripSpaces word
  if digits ≠ [] ∧ digits.all Char.isDigit ∧ Nat.ofDigitChars 10 digits 0 < 2 ^ 16 then
    some (.ofNat (Nat.ofDigitChars 10 digits 0))
  else none

def flushText : List Char := "flush set inet nixos-fw autopeer-ports".toList

def addText : List Char := "add element inet nixos-fw autopeer-ports \x7b".toList

def readCommand (line : List Char) : Option Command :=
  if line = flushText then some .flush
  else if addText <+: line ∧ line.getLast? = some '\x7d' then
    (((line.drop addText.length).dropLast.splitOn ',').mapM readPort).map Command.add
  else none

/-- Every line that is not empty is a command. -/
def readBatch (text : String) : Option (List Command) :=
  ((text.toList.splitOn '\n').filter (· ≠ [])).mapM readCommand

/-- A command on the set of ports. -/
def Command.run (installed : Finset UInt16) : Command → Finset UInt16
  | .flush => ∅
  | .add elements => installed ∪ elements.toFinset

def Command.elements : Command → List UInt16
  | .flush => []
  | .add elements => elements

end Reader

section Words
variable {port : UInt16}

lemma digits_ne_nil : (toString port).toList ≠ [] := by
  have hrepr : toString port = Nat.repr port.toNat := rfl
  rw [hrepr, Nat.toList_repr]
  exact Nat.toDigits_ne_nil

lemma digits_value : Nat.ofDigitChars 10 (toString port).toList 0 = port.toNat := by
  have hrepr : toString port = Nat.repr port.toNat := rfl
  rw [hrepr, Nat.toList_repr]
  exact Nat.ofDigitChars_ten_toDigits

/-- Spaces around a word that has none. -/
lemma stripSpaces_word {word : List Char} (h : ' ' ∉ word) (n : ℕ) :
    stripSpaces (' ' :: (word ++ List.replicate n ' ')) = word := by
  have hspaces : ∀ m : ℕ, ∀ l : List Char, ' ' ∉ l →
      (List.replicate m ' ' ++ l).dropWhile (· = ' ') = l := by
    intro m l hl
    induction m with
    | zero =>
      cases l with
      | nil => rfl
      | cons c l =>
        have hc : c ≠ ' ' := by
          rintro rfl
          exact hl List.mem_cons_self
        simp [hc]
    | succ m ih => simpa [List.replicate_succ] using ih
  have hfront : (' ' :: (word ++ List.replicate n ' ')).dropWhile (· = ' ') =
      (word ++ List.replicate n ' ').dropWhile (· = ' ') := by simp
  rw [stripSpaces, hfront]
  cases word with
  | nil =>
    have := hspaces n [] (by simp)
    simp only [List.append_nil] at this
    simp only [List.nil_append, this]
    rfl
  | cons c word =>
    have hc : c ≠ ' ' := by
      rintro rfl
      exact h List.mem_cons_self
    have hkeep : (c :: word ++ List.replicate n ' ').dropWhile (· = ' ') =
        c :: word ++ List.replicate n ' ' := by simp [hc]
    have hrev : ' ' ∉ (c :: word).reverse := by
      rw [List.mem_reverse]
      exact h
    rw [hkeep, List.reverse_append, List.reverse_replicate, hspaces n _ hrev, List.reverse_reverse]

lemma readPort_word (n : ℕ) :
    readPort (' ' :: ((toString port).toList ++ List.replicate n ' ')) = some port := by
  have hlt := port.toNat_lt
  have hall : (toString port).toList.all Char.isDigit = true := List.all_eq_true.mpr isDigit_natRepr
  have hspace : ' ' ∉ (toString port).toList := notMem_natRepr (by decide)
  simp only [readPort, stripSpaces_word hspace, digits_value]
  rw [if_pos ⟨digits_ne_nil, hall, hlt⟩, UInt16.ofNat_toNat]

/-- What stands between the braces is read word by word. -/
lemma readPorts (ports : List UInt16) (h : ports ≠ []) :
    ((' ' :: ((String.intercalate ", " (ports.map toString)).toList ++ [' '])).splitOn ',').mapM
      readPort = some ports := by
  have hcomma : ∀ p : UInt16, ',' ∉ (toString p).toList := fun p => notMem_natRepr (by decide)
  induction ports with
  | nil => exact absurd rfl h
  | cons p ports ih =>
    cases ports with
    | nil =>
      have hword : ',' ∉ ' ' :: ((toString p).toList ++ [' ']) := by simp [hcomma p]
      simp only [List.map_cons, List.map_nil, String.intercalate_singleton,
        List.splitOn_eq_singleton hword, List.mapM_cons, List.mapM_nil]
      rw [show [' '] = List.replicate 1 ' ' from rfl, readPort_word]
      rfl
    | cons q ports =>
      have hword : ',' ∉ ' ' :: (toString p).toList := by simp [hcomma p]
      have hsep : ", ".toList = [',', ' '] := rfl
      have hsplit : ' ' :: ((String.intercalate ", " ((p :: q :: ports).map toString)).toList ++
          [' ']) = (' ' :: (toString p).toList) ++
          ',' :: (' ' :: ((String.intercalate ", " ((q :: ports).map toString)).toList ++ [' '])) := by
        simp only [List.map_cons, String.intercalate_cons_cons, String.toList_append, hsep]
        simp
      have hfirst := @readPort_word p 0
      simp only [List.replicate_zero, List.append_nil] at hfirst
      rw [hsplit, List.splitOn_append_cons_self_of_not_mem hword, List.mapM_cons, hfirst, ih (by simp)]
      rfl

end Words

section Batch
variable {ports : List UInt16}

/-- The line that adds the ports. -/
def addLine (ports : List UInt16) : List Char :=
  addText ++ (' ' :: ((String.intercalate ", " (ports.map toString)).toList ++ [' '])) ++ ['\x7d']

lemma readCommand_addLine (h : ports ≠ []) : readCommand (addLine ports) = some (.add ports) := by
  have hne : addLine ports ≠ flushText := by
    intro heq
    have hadd : addText.head? = some 'a' := by decide
    have hflush : flushText.head? = some 'f' := by decide
    have hhead := congrArg List.head? heq
    rw [addLine, List.append_assoc, List.head?_append, hadd, hflush, Option.some_or] at hhead
    exact absurd (Option.some.inj hhead) (by decide)
  have hpre : addText <+: addLine ports := by
    unfold addLine
    exact (List.prefix_append _ _).trans (List.prefix_append _ _)
  have hlast : (addLine ports).getLast? = some '\x7d' := by
    rw [addLine]
    exact List.getLast?_concat
  have hinner : ((addLine ports).drop addText.length).dropLast =
      ' ' :: ((String.intercalate ", " (ports.map toString)).toList ++ [' ']) := by
    rw [addLine, List.append_assoc, List.drop_left, List.dropLast_concat]
  rw [readCommand, if_neg hne, if_pos ⟨hpre, hlast⟩, hinner, readPorts ports h]
  rfl

lemma newline_notMem_addLine : '\n' ∉ addLine ports := by
  have hjoin : '\n' ∉ (String.intercalate ", " (ports.map toString)).toList := by
    refine notMem_intercalate (by decide) fun f hf => ?_
    obtain ⟨p, -, rfl⟩ := List.mem_map.mp hf
    exact notMem_natRepr (by decide)
  have hadd : '\n' ∉ addText := by decide
  simp only [addLine, List.mem_append, List.mem_cons, List.not_mem_nil, not_or]
  exact ⟨⟨hadd, by decide, hjoin, by decide, not_false⟩, by decide, not_false⟩

lemma nftPortBatch_toList (h : ports ≠ []) :
    (nftPortBatch ports).toList = flushText ++ '\n' :: (addLine ports ++ ['\n']) := by
  have hflush : "flush set inet nixos-fw autopeer-ports\n".toList = flushText ++ ['\n'] := by decide
  have hadd : "add element inet nixos-fw autopeer-ports \x7b ".toList = addText ++ [' '] := by decide
  have hend : " \x7d\n".toList = [' ', '\x7d', '\n'] := by decide
  simp only [nftPortBatch, if_neg h, String.toList_append, hflush, hadd, hend, addLine,
    List.append_assoc, List.cons_append, List.nil_append]

/-- nft reads the batch as the commands that it was made of. -/
theorem readBatch_nftPortBatch (ports : List UInt16) : readBatch (nftPortBatch ports) =
    some (if ports = [] then [.flush] else [.flush, .add ports]) := by
  have hflush : '\n' ∉ flushText := by decide
  by_cases h : ports = []
  · rw [if_pos h, h]
    decide
  · have hlines : (nftPortBatch ports).toList.splitOn '\n' = [flushText, addLine ports, []] := by
      rw [nftPortBatch_toList h, List.splitOn_append_cons_self_of_not_mem hflush,
        List.splitOn_append_cons_self_of_not_mem newline_notMem_addLine]
      rfl
    have hne : addLine ports ≠ [] := by
      rw [addLine]
      exact List.append_ne_nil_of_right_ne_nil _ (List.cons_ne_nil _ _)
    have hkept : ([flushText, addLine ports, []].filter (· ≠ [])) = [flushText, addLine ports] := by
      have hf : flushText ≠ [] := by decide
      simp [hne, hf]
    have hfirst : readCommand flushText = some .flush := if_pos rfl
    rw [if_neg h, readBatch, hlines, hkept, List.mapM_cons, hfirst, List.mapM_cons,
      readCommand_addLine h]
    rfl

/-- What is sorted has its repetitions next to each other. -/
lemma dedup_strict : ∀ {ports : List UInt16}, ports.Pairwise (· ≤ ·) → (dedup ports).Pairwise (· < ·)
  | [], _ => by simp [dedup]
  | [a], _ => by simp [dedup]
  | a :: b :: l, h => by
    obtain ⟨hle, htail⟩ := List.pairwise_cons.mp h
    rw [dedup]
    split
    · exact dedup_strict htail
    · rename_i hab
      refine List.pairwise_cons.mpr ⟨fun c hc => ?_, dedup_strict htail⟩
      have hb : a < b := UInt16.lt_of_le_of_ne (hle b List.mem_cons_self) hab
      rcases List.mem_cons.mp (ManagerEffects.mem_dedup.mp hc) with rfl | hc
      · exact hb
      · exact UInt16.lt_of_lt_of_le hb ((List.pairwise_cons.mp htail).1 c hc)

lemma nftPorts_nodup (peers : List Peer) : (nftPorts peers).Nodup :=
  (dedup_strict (List.pairwise_insertionSort _ _)).imp fun h => UInt16.ne_of_lt h

lemma nftPorts_perm {peers peers' : List Peer} (h : peers'.Perm peers) :
    nftPorts peers' = nftPorts peers := by
  have hports := (h.filter Peer.enabled).map Peer.listenPort
  have hsorted := ((List.perm_insertionSort (· ≤ ·) _).trans hports).trans
    (List.perm_insertionSort (· ≤ ·) _).symm
  have heq := hsorted.eq_of_pairwise (fun a b _ _ => @UInt16.le_antisymm a b)
    (List.pairwise_insertionSort _ _) (List.pairwise_insertionSort _ _)
  exact congrArg dedup heq

lemma enabled_iff {p : Peer} : p.enabled = true ↔ p.status ≠ .deleting ∧ p.status ≠ .disabled := by
  simp [Peer.enabled]

/-- The batch leaves the ports of the peers that are neither Deleting nor Disabled, whatever the set
held before, and its text does not depend on the order of the peers. -/
theorem batch_replaces (peers : List Peer) :
    (∃ commands, readBatch (syncBatch peers) = some commands ∧
      (∀ installed port, port ∈ commands.foldl Command.run installed ↔
        ∃ p ∈ peers, (p.status ≠ .deleting ∧ p.status ≠ .disabled) ∧ p.listenPort = port) ∧
      (commands.flatMap Command.elements).Nodup ∧
      ∀ elements, Command.add elements ∈ commands → elements ≠ []) ∧
    ∀ peers', peers'.Perm peers → syncBatch peers' = syncBatch peers := by
  have hmem := @ManagerEffects.mem_nftPorts peers
  simp only [enabled_iff] at hmem
  refine ⟨⟨_, readBatch_nftPortBatch (nftPorts peers), ?_, ?_, ?_⟩, fun peers' h => ?_⟩
  · intro installed port
    rw [← hmem]
    split
    · rename_i h
      simp [Command.run, h]
    · simp [Command.run]
  · have hnodup := nftPorts_nodup peers
    split
    · simp [Command.elements]
    · simpa [Command.elements] using hnodup
  · intro elements hadd
    split at hadd
    · simp at hadd
    · rename_i h
      obtain rfl : elements = nftPorts peers := by simpa using hadd
      exact h
  · rw [syncBatch, syncBatch, nftPorts_perm h]

end Batch

end Autopeer.NftBatch
