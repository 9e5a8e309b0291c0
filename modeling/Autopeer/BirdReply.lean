import Autopeer.BirdControl

/-! The replies of BIRD: what the line format of the control protocol says, and where the reader of
the manager takes a line that is not final for the final one. -/
namespace Autopeer.BirdReply
open PeerData BirdControl
open RequestParsing (trim)

section Format

/-- The text of a line. -/
structure LineText where
  bytes : List UInt8
  oneLine : newline ∉ bytes

/-- Four digits. -/
structure Code where
  bytes : List UInt8
  length : bytes.length = 4
  digits : ∀ b ∈ bytes, 0x30 ≤ b ∧ b ≤ 0x39

/-- A code with which BIRD rejects the configuration. -/
def Code.Rejects (code : Code) : Prop :=
  code.bytes.head? = some 0x38 ∨ code.bytes.head? = some 0x39

instance (code : Code) : Decidable code.Rejects := inferInstanceAs (Decidable (_ ∨ _))

def dash : UInt8 := 0x2d

/-- A line that is not final: a code with a dash, or a continuation of the code before. -/
inductive Continued
  | coded (code : Code) (text : LineText)
  | plain (text : LineText)

def Continued.body : Continued → List UInt8
  | .coded code text => code.bytes ++ dash :: text.bytes
  | .plain text => space :: text.bytes

def Continued.line (c : Continued) : Line := c.body ++ [newline]

structure Reply where
  continued : List Continued
  code : Code
  text : LineText

def Reply.final (r : Reply) : Line := r.code.bytes ++ space :: r.text.bytes ++ [newline]

def Reply.lines (r : Reply) : List Line := r.continued.map Continued.line ++ [r.final]

/-- What is left of a line that breaks off before its end: a part of its code, a line that is not
final, or a final one. -/
inductive Fragment
  | digits (bytes : List UInt8) (short : bytes.length ≤ 4) (digits : ∀ b ∈ bytes, 0x30 ≤ b ∧ b ≤ 0x39)
  | body (c : Continued)
  | final (code : Code) (text : LineText)

def Fragment.bytes : Fragment → List UInt8
  | .digits bytes _ _ => bytes
  | .body c => c.body
  | .final code text => code.bytes ++ space :: text.bytes

/-- The fifth byte of the line is a space. -/
def Continued.LooksFinal : Continued → Prop
  | .coded _ _ => False
  | .plain text => text.bytes[3]? = some space

instance (c : Continued) : Decidable c.LooksFinal :=
  match c with
  | .coded _ _ => isFalse id
  | .plain _ => inferInstanceAs (Decidable (_ = _))

def Fragment.LooksFinal : Fragment → Prop
  | .digits _ _ _ => False
  | .body c => c.LooksFinal
  | .final _ _ => True

instance (f : Fragment) : Decidable f.LooksFinal :=
  match f with
  | .digits _ _ _ => isFalse id
  | .body c => inferInstanceAs (Decidable c.LooksFinal)
  | .final _ _ => isTrue trivial

/-- It is cut from a final line whose code rejects the configuration. -/
def Fragment.Rejects : Fragment → Prop
  | .final code _ => code.Rejects
  | _ => False

end Format

section Lines
variable {body : List UInt8} {rest : List UInt8} {line : Line}

lemma lines_cons {b : UInt8} {bs ls : List UInt8} {more : List Line} (hb : b ≠ newline)
    (h : lines bs = ls :: more) : lines (b :: bs) = (b :: ls) :: more := by
  rw [lines, if_neg hb, h]

lemma lines_line (h : newline ∉ body) : lines (body ++ newline :: rest) =
    (body ++ [newline]) :: lines rest := by
  induction body with
  | nil => simp [lines]
  | cons b bs ih =>
    rw [List.mem_cons, not_or] at h
    exact lines_cons (Ne.symm h.1) (ih h.2)

lemma lines_fragment (h : newline ∉ body) (hne : body ≠ []) : lines body = [body] := by
  induction body with
  | nil => exact absurd rfl hne
  | cons b bs ih =>
    rw [List.mem_cons, not_or] at h
    cases bs with
    | nil => simp [lines, Ne.symm h.1]
    | cons c cs => exact lines_cons (Ne.symm h.1) (ih h.2 (by simp))

lemma lines_flatten (bs : List UInt8) : (lines bs).flatten = bs := by
  induction bs with
  | nil => rfl
  | cons b bs ih =>
    by_cases hb : b = newline
    · rw [lines, if_pos hb, List.flatten_cons, ih]
      rfl
    · cases h : lines bs with
      | nil =>
        rw [h] at ih
        simp [lines, hb, ← ih]
      | cons line rest =>
        rw [h] at ih
        rw [lines_cons hb h, List.flatten_cons, List.cons_append, ← List.flatten_cons, ih]

/-- A line with its newline, and no other. -/
def Whole (line : Line) : Prop := ∃ body, newline ∉ body ∧ line = body ++ [newline]

lemma lines_append {ls : List Line} (h : ∀ line ∈ ls, Whole line) :
    lines (ls.flatten ++ rest) = ls ++ lines rest := by
  induction ls with
  | nil => rfl
  | cons line ls ih =>
    obtain ⟨body, hn, rfl⟩ := h line (by simp)
    have all : ∀ line ∈ ls, Whole line := fun line hm => h line (by simp [hm])
    calc lines (((body ++ [newline]) :: ls).flatten ++ rest)
        = lines (body ++ newline :: (ls.flatten ++ rest)) := by simp
      _ = (body ++ [newline]) :: (ls ++ lines rest) := by rw [lines_line hn, ih all]
      _ = (body ++ [newline]) :: ls ++ lines rest := rfl

lemma readUntil_whole {ending : Ending} (h : Whole line) : readUntil ending line = .ok line := by
  obtain ⟨body, -, rfl⟩ := h
  simp [readUntil]

lemma readUntil_closed : readUntil .closed line = .ok line := by
  unfold readUntil
  split <;> rfl

end Lines

section Shape
variable {c : Continued} {r : Reply}

lemma digits_oneLine {bytes : List UInt8} (digits : ∀ b ∈ bytes, 0x30 ≤ b ∧ b ≤ 0x39) :
    newline ∉ bytes := by
  intro hm
  have := digits newline hm
  revert this
  decide

lemma Code.oneLine (code : Code) : newline ∉ code.bytes := digits_oneLine code.digits

lemma Continued.oneLine (c : Continued) : newline ∉ c.body := by
  cases c with
  | coded code text =>
    rw [Continued.body, List.mem_append, List.mem_cons]
    rintro (h | h | h)
    · exact code.oneLine h
    · revert h
      decide
    · exact text.oneLine h
  | plain text =>
    rw [Continued.body, List.mem_cons]
    rintro (h | h)
    · revert h
      decide
    · exact text.oneLine h

lemma Continued.whole (c : Continued) : Whole c.line := ⟨c.body, c.oneLine, rfl⟩

lemma continued_whole (continued : List Continued) :
    ∀ line ∈ continued.map Continued.line, Whole line := by
  intro line hm
  obtain ⟨c, -, rfl⟩ := List.mem_map.mp hm
  exact c.whole

lemma final_oneLine (code : Code) (text : LineText) :
    newline ∉ code.bytes ++ space :: text.bytes := by
  rw [List.mem_append, List.mem_cons]
  rintro (h | h | h)
  · exact code.oneLine h
  · revert h
    decide
  · exact text.oneLine h

lemma Reply.whole (r : Reply) : Whole r.final := ⟨_, final_oneLine r.code r.text, rfl⟩

lemma Reply.lines_whole (r : Reply) : ∀ line ∈ r.lines, Whole line := by
  intro line hm
  rcases List.mem_append.mp hm with hm | hm
  · exact continued_whole r.continued line hm
  · obtain rfl := List.mem_singleton.mp hm
    exact r.whole

lemma isFinal_iff {bytes : Line} : isFinal bytes = true ↔ bytes[4]? = some space := by
  simp only [isFinal, ge_iff_le, Bool.and_eq_true, decide_eq_true_eq, beq_iff_eq, and_iff_right_iff_imp]
  intro h
  obtain ⟨hlt, -⟩ := List.getElem?_eq_some_iff.mp h
  omega

/-- The fifth byte of a line, with or without its newline. -/
lemma isFinal_body (c : Continued) : isFinal c.body = true ↔ c.LooksFinal := by
  rw [isFinal_iff]
  cases c with
  | coded code text =>
    have at4 : (code.bytes ++ dash :: text.bytes)[4]? = some dash := by
      rw [List.getElem?_append_right (by rw [code.length]), code.length]
      rfl
    rw [Continued.body, at4]
    simp [Continued.LooksFinal, dash, space]
  | plain text => rfl

lemma isFinal_newline {body : List UInt8} : isFinal (body ++ [newline]) = isFinal body := by
  rw [Bool.eq_iff_iff, isFinal_iff, isFinal_iff, List.getElem?_append]
  split
  · rfl
  · rename_i h
    rw [List.getElem?_eq_none (by omega : body.length ≤ 4)]
    cases hn : ([newline] : List UInt8)[4 - body.length]? with
    | none => rfl
    | some b =>
      obtain rfl : b = newline := by
        have := List.mem_of_getElem? hn
        simpa using this
      simp [newline, space]

lemma isFinal_line (c : Continued) : isFinal c.line = true ↔ c.LooksFinal := by
  rw [Continued.line, isFinal_newline, isFinal_body]

lemma isFinal_code {code : Code} {rest : List UInt8} :
    isFinal (code.bytes ++ space :: rest) = true := by
  rw [isFinal_iff, List.getElem?_append_right (by rw [code.length]), code.length]
  rfl

lemma Reply.isFinal (r : Reply) : isFinal r.final = true := by
  rw [Reply.final, List.append_assoc]
  exact isFinal_code

/-- BIRD rejects the configuration. -/
def Reply.Rejects (r : Reply) : Prop := r.code.Rejects

instance (r : Reply) : Decidable r.Rejects := inferInstanceAs (Decidable r.code.Rejects)

lemma isError_code {code : Code} {rest : List UInt8} :
    isError (code.bytes ++ rest) = true ↔ code.Rejects := by
  simp [isError, List.take_left' code.length, Code.Rejects]

lemma Reply.isError (r : Reply) : isError r.final = true ↔ r.Rejects := by
  rw [Reply.final, List.append_assoc, isError_code, Reply.Rejects]

/-- A line that only looks final never has an error code. -/
lemma not_isError_line (h : c.LooksFinal) : isError c.line = false := by
  cases c with
  | coded code text => exact h.elim
  | plain text => simp [BirdControl.isError, Continued.line, Continued.body, space]

lemma not_isError_body (h : c.LooksFinal) : isError c.body = false := by
  cases c with
  | coded code text => exact h.elim
  | plain text => simp [BirdControl.isError, Continued.body, space]

lemma Fragment.oneLine (f : Fragment) : newline ∉ f.bytes := by
  cases f with
  | digits bytes short digits => exact digits_oneLine digits
  | body c => exact c.oneLine
  | final code text => exact final_oneLine code text

lemma Fragment.isFinal_bytes (f : Fragment) : BirdControl.isFinal f.bytes = true ↔ f.LooksFinal := by
  cases f with
  | digits bytes short digits =>
    rw [isFinal_iff, Fragment.bytes, List.getElem?_eq_none (by omega)]
    simp [Fragment.LooksFinal]
  | body c => exact isFinal_body c
  | final code text => exact iff_of_true isFinal_code trivial

lemma Fragment.isError_bytes {f : Fragment} (h : f.LooksFinal) :
    BirdControl.isError f.bytes = true ↔ f.Rejects := by
  cases f with
  | digits bytes short digits => exact h.elim
  | body c => simp [Fragment.bytes, not_isError_body h, Fragment.Rejects]
  | final code text => exact isError_code

lemma Fragment.Rejects.looksFinal {f : Fragment} (h : f.Rejects) : f.LooksFinal := by
  cases f with
  | final code text => trivial
  | _ => exact h.elim

end Shape

section Reading
variable {ending : Ending} {ls rest : List Line} {line : Line} {output : String}

lemma readBanner_skip (read : ∀ line ∈ ls, readUntil ending line = .ok line)
    (none : ∀ line ∈ ls, isFinal line = false) :
    readBanner ending (ls ++ rest) = readBanner ending rest := by
  induction ls with
  | nil => rfl
  | cons line ls ih =>
    rw [List.cons_append, readBanner, read line (by simp)]
    simp only [none line (by simp), Bool.false_eq_true, ↓reduceIte]
    exact ih (fun l hl => read l (by simp [hl])) fun l hl => none l (by simp [hl])

lemma readBanner_final (read : readUntil ending line = .ok line) (h : isFinal line = true) :
    readBanner ending (line :: rest) = .ok rest := by
  rw [readBanner, read]
  simp only [h, ↓reduceIte]

/-- The result at the line that is taken for the final one. -/
def verdict (output : String) (line : Line) : Except PeerError Unit :=
  if isError line then .error (.birdReload (trim (output ++ fromUtf8Lossy line))) else .ok ()

lemma readReply_skip (read : ∀ line ∈ ls, readUntil ending line = .ok line)
    (none : ∀ line ∈ ls, isFinal line = false) :
    readReply ending output (ls ++ rest) =
      readReply ending (ls.foldl (fun text line => text ++ fromUtf8Lossy line) output) rest := by
  induction ls generalizing output with
  | nil => rfl
  | cons line ls ih =>
    rw [List.cons_append, readReply, read line (by simp)]
    simp only [none line (by simp), Bool.false_eq_true, ↓reduceIte]
    exact ih (fun l hl => read l (by simp [hl])) fun l hl => none l (by simp [hl])

lemma readReply_final (read : readUntil ending line = .ok line) (h : isFinal line = true) :
    readReply ending output (line :: rest) = (verdict output line, rest) := by
  rw [readReply, read]
  simp only [h, ↓reduceIte]
  rfl

/-- The first line that looks final. -/
lemma exists_first (h : ∃ line ∈ ls, isFinal line = true) : ∃ before line after,
    ls = before ++ line :: after ∧ isFinal line = true ∧ ∀ l ∈ before, isFinal l = false := by
  obtain ⟨line, hm, hf⟩ := h
  have found : (ls.find? isFinal).isSome := by
    rw [List.find?_isSome]
    exact ⟨line, hm, hf⟩
  obtain ⟨first, hfirst⟩ := Option.isSome_iff_exists.mp found
  obtain ⟨hf, before, after, heq, hb⟩ := List.find?_eq_some_iff_append.mp hfirst
  exact ⟨before, first, after, heq, hf, fun l hl => by simpa using hb l hl⟩

/-- The reply ends at a line that looks final, wherever it stands. -/
lemma readReply_stops (read : ∀ line ∈ ls, readUntil ending line = .ok line)
    (h : ∃ line ∈ ls, isFinal line = true) :
    ∃ text line after, readReply ending output (ls ++ rest) = (verdict text line, after ++ rest) := by
  obtain ⟨before, line, after, rfl, hf, hb⟩ := exists_first h
  refine ⟨before.foldl (fun text line => text ++ fromUtf8Lossy line) output, line, after, ?_⟩
  rw [List.append_assoc, List.cons_append,
    readReply_skip (fun l hl => read l (by simp [hl])) hb, readReply_final (read line (by simp)) hf]

end Reading

section Delivery

/-- What the manager can receive after it has connected: two complete replies, of which the first is
the banner, and more; or a stream that ends before the final line of either is complete. -/
inductive Delivery
  | complete (banner reply : Reply) (more : List UInt8) (ending : Ending)
  | noBanner (continued : List Continued) (rest : Fragment)
  | noReply (banner : Reply) (continued : List Continued) (rest : Fragment)

def Delivery.socket : Delivery → Socket
  | .complete banner reply more ending =>
    ⟨none, none, (banner.lines ++ reply.lines).flatten ++ more, ending⟩
  | .noBanner continued rest =>
    ⟨none, none, (continued.map Continued.line).flatten ++ rest.bytes, .closed⟩
  | .noReply banner continued rest =>
    ⟨none, none, (banner.lines ++ continued.map Continued.line).flatten ++ rest.bytes, .closed⟩

/-- The reader follows the protocol: it stops right after the final line of the reply, with the
result that its code tells, and it fails where there is no final line. -/
def Delivery.Meets (socketPath : String) (d : Delivery) : Prop :=
  let read := reloadBirdInner socketPath d.socket
  match d with
  | .complete _ reply more _ =>
    (reply.Rejects → ∃ stderr, read.1 = .error (.birdReload stderr)) ∧
      (¬reply.Rejects → read.1 = .ok ()) ∧ read.2 = more
  | _ => ∃ error, read.1 = .error error

def looksFinal (continued : List Continued) : ℕ := continued.countP fun c => decide c.LooksFinal

def Fragment.looksFinal (f : Fragment) : ℕ := if f.LooksFinal then 1 else 0

/-- No line that the reader meets before the final one has a space as its fifth byte. A stream that
breaks off may have one such line, or two of which the second has an error code. -/
def Delivery.Readable : Delivery → Prop
  | .complete banner reply _ _ =>
    looksFinal banner.continued = 0 ∧ looksFinal reply.continued = 0
  | .noBanner continued rest =>
    looksFinal continued + rest.looksFinal ≤ 1 ∨ looksFinal continued = 1 ∧ rest.Rejects
  | .noReply banner continued rest =>
    looksFinal banner.continued = 0 ∧ looksFinal continued = 0 ∧ (¬rest.LooksFinal ∨ rest.Rejects) ∨
      looksFinal banner.continued = 1 ∧ banner.Rejects

variable {continued : List Continued} {banner reply : Reply} {more : List UInt8} {ending : Ending}
  {rest : Fragment} {socketPath : String}

lemma looksFinal_zero (h : looksFinal continued = 0) :
    ∀ line ∈ continued.map Continued.line, isFinal line = false := by
  intro line hm
  obtain ⟨c, hc, rfl⟩ := List.mem_map.mp hm
  have := List.countP_eq_zero.mp h c hc
  rw [Bool.eq_false_iff]
  intro hf
  exact this (decide_eq_true ((isFinal_line c).mp hf))

lemma looksFinal_pos (h : looksFinal continued ≠ 0) :
    ∃ line ∈ continued.map Continued.line, isFinal line = true := by
  obtain ⟨c, hc, hf⟩ := List.countP_pos_iff.mp (Nat.pos_of_ne_zero h)
  exact ⟨c.line, List.mem_map_of_mem hc, (isFinal_line c).mpr (of_decide_eq_true hf)⟩

lemma filter_isFinal (continued : List Continued) :
    ((continued.map Continued.line).filter isFinal).length = looksFinal continued ∧
      ∀ line ∈ (continued.map Continued.line).filter isFinal, isError line = false := by
  constructor
  · rw [← List.countP_eq_length_filter, List.countP_map, looksFinal]
    refine List.countP_congr fun c _ => ?_
    rw [Function.comp_apply, isFinal_line, decide_eq_true_iff]
  · intro line hm
    obtain ⟨hm, hf⟩ := List.mem_filter.mp hm
    obtain ⟨c, -, rfl⟩ := List.mem_map.mp hm
    exact not_isError_line ((isFinal_line c).mp hf)

/-- A fragment is one line, unless there is nothing of it. -/
lemma Fragment.filter_isFinal (f : Fragment) :
    (lines f.bytes).filter isFinal = if f.LooksFinal then [f.bytes] else [] := by
  by_cases he : f.bytes = []
  · have no : ¬f.LooksFinal := by
      rw [← f.isFinal_bytes, he]
      decide
    rw [he, if_neg no]
    rfl
  · rw [lines_fragment f.oneLine he]
    by_cases hf : f.LooksFinal
    · simp [hf, f.isFinal_bytes.mpr hf]
    · have : isFinal f.bytes = false := by
        rw [Bool.eq_false_iff]
        exact fun h => hf (f.isFinal_bytes.mp h)
      simp [hf, this]

lemma filter_none {ls : List Line} (h : ¬∃ line ∈ ls, isFinal line = true) :
    (∀ line ∈ ls, isFinal line = false) ∧ ls.filter isFinal = [] := by
  have all : ∀ line ∈ ls, isFinal line = false := fun line hm => by
    rw [Bool.eq_false_iff]
    exact fun hf => h ⟨line, hm, hf⟩
  exact ⟨all, List.filter_eq_nil_iff.mpr fun line hm => by simp [all line hm]⟩

lemma filter_first {before after : List Line} {line : Line} (hf : isFinal line = true)
    (none : ∀ l ∈ before, isFinal l = false) :
    (before ++ line :: after).filter isFinal = line :: after.filter isFinal := by
  rw [List.filter_append, List.filter_eq_nil_iff.mpr fun l hl => by simp [none l hl],
    List.nil_append, List.filter_cons_of_pos hf]

lemma verdict_error {output : String} {line : Line} :
    (∃ error, verdict output line = .error error) ↔ isError line = true := by
  unfold verdict
  split <;> simp_all

/-- A connection that was made: the banner is read, then the reply. -/
lemma reloadBirdInner_connected {input : List UInt8} {ending : Ending} :
    reloadBirdInner socketPath ⟨none, none, input, ending⟩ =
      match readBanner ending (lines input) with
      | .error error => (.error error, [])
      | .ok rest => ((readReply ending "" rest).1, (readReply ending "" rest).2.flatten) := rfl

/-- On a stream that ends the result hangs on the second line that looks final. -/
theorem closed_error {input : List UInt8} :
    (∃ error, (reloadBirdInner socketPath ⟨none, none, input, .closed⟩).1 = .error error) ↔
      ∀ first second after, (lines input).filter isFinal = first :: second :: after →
        isError second = true := by
  have read : ∀ line ∈ lines input, readUntil .closed line = .ok line := fun _ _ => readUntil_closed
  rw [reloadBirdInner_connected]
  generalize lines input = ls at read
  by_cases some : ∃ line ∈ ls, isFinal line = true
  · obtain ⟨before, first, after, rfl, hf, hb⟩ := exists_first some
    have found : readBanner .closed (before ++ first :: after) = .ok after := by
      rw [readBanner_skip (fun l _ => readUntil_closed) hb, readBanner_final readUntil_closed hf]
    rw [found, filter_first hf hb]
    by_cases more : ∃ line ∈ after, isFinal line = true
    · obtain ⟨between, second, rest, rfl, hs, hbt⟩ := exists_first more
      simp only [readReply_skip (fun l _ => readUntil_closed) hbt, readReply_final readUntil_closed hs,
        filter_first hs hbt, verdict_error]
      simp
    · obtain ⟨none, empty⟩ := filter_none more
      have skip := @readReply_skip _ _ [] "" (fun l _ => readUntil_closed) none
      rw [List.append_nil] at skip
      simp only [skip, readReply, empty]
      simp
  · obtain ⟨none, empty⟩ := filter_none some
    have skip := @readBanner_skip _ _ [] (fun l _ => readUntil_closed) none
    rw [List.append_nil] at skip
    simp only [skip, readBanner, empty]
    simp

lemma lines_noBanner : lines ((continued.map Continued.line).flatten ++ rest.bytes) =
    continued.map Continued.line ++ lines rest.bytes := lines_append (continued_whole continued)

lemma lines_noReply : lines ((banner.lines ++ continued.map Continued.line).flatten ++ rest.bytes) =
    banner.lines ++ continued.map Continued.line ++ lines rest.bytes := by
  refine lines_append fun line hm => ?_
  rcases List.mem_append.mp hm with hm | hm
  · exact banner.lines_whole line hm
  · exact continued_whole continued line hm

lemma second_of_two {a b : Line} {Q : Line → Prop} :
    (∀ first second after, [a, b] = first :: second :: after → Q second) ↔ Q b := by
  constructor
  · exact fun h => h a b [] rfl
  · rintro h _ _ _ ⟨⟩
    exact h

lemma noBanner_meets : (Delivery.noBanner continued rest).Meets socketPath ↔
    (Delivery.noBanner continued rest).Readable := by
  change (∃ error, (reloadBirdInner socketPath ⟨none, none, _, .closed⟩).1 = .error error) ↔ _
  rw [closed_error, lines_noBanner, List.filter_append, rest.filter_isFinal]
  obtain ⟨hlen, herr⟩ := filter_isFinal continued
  generalize (continued.map Continued.line).filter isFinal = early at hlen herr
  rw [Delivery.Readable, ← hlen, Fragment.looksFinal]
  by_cases hf : rest.LooksFinal
  · -- The fragment is the first, the second or a later line that looks final.
    rw [if_pos hf, if_pos hf]
    match early with
    | [] => simp
    | [first] =>
      rw [← Fragment.isError_bytes hf, List.singleton_append, second_of_two]
      simp
    | first :: second :: after => simp [herr second (by simp)]
  · have accepted : ¬rest.Rejects := fun h => hf h.looksFinal
    rw [if_neg hf, if_neg hf]
    match early with
    | [] => simp
    | [first] => simp
    | first :: second :: after => simp [herr second (by simp)]

lemma filter_banner (banner : Reply) :
    banner.lines.filter isFinal = (banner.continued.map Continued.line).filter isFinal ++ [banner.final] := by
  rw [Reply.lines, List.filter_append, List.filter_singleton, banner.isFinal]
  rfl

lemma noReply_meets : (Delivery.noReply banner continued rest).Meets socketPath ↔
    (Delivery.noReply banner continued rest).Readable := by
  change (∃ error, (reloadBirdInner socketPath ⟨none, none, _, .closed⟩).1 = .error error) ↔ _
  rw [closed_error, lines_noReply, List.append_assoc, List.filter_append, filter_banner,
    List.filter_append, rest.filter_isFinal]
  obtain ⟨hlen, herr⟩ := filter_isFinal continued
  generalize (continued.map Continued.line).filter isFinal = finals at hlen herr
  obtain ⟨blen, berr⟩ := filter_isFinal banner.continued
  generalize (banner.continued.map Continued.line).filter isFinal = early at blen berr
  rw [Delivery.Readable, ← hlen, ← blen]
  match early with
  | [] =>
    match finals with
    | [] =>
      by_cases hf : rest.LooksFinal
      · rw [if_pos hf, ← Fragment.isError_bytes hf, List.nil_append, List.nil_append,
          List.singleton_append, second_of_two]
        simp [hf]
      · simp [hf]
    | line :: after => simp [herr line (by simp)]
  | [first] => simp [banner.isError]
  | first :: second :: after => simp [berr second (by simp)]

section Complete
variable {ls : List Line} {output : String}

lemma banner_read (h : looksFinal banner.continued = 0) :
    readBanner ending (banner.lines ++ ls) = .ok ls := by
  rw [Reply.lines, List.append_assoc, readBanner_skip
    (fun l hl => readUntil_whole (continued_whole _ l hl)) (looksFinal_zero h)]
  exact readBanner_final (readUntil_whole banner.whole) banner.isFinal

/-- A banner with a line that looks final leaves its own final line unread. -/
lemma banner_stops (h : looksFinal banner.continued ≠ 0) : ∃ after, (∀ line ∈ after, Whole line) ∧
    readBanner ending (banner.lines ++ ls) = .ok ((after ++ [banner.final]) ++ ls) := by
  obtain ⟨before, line, after, heq, hf, none⟩ := exists_first (looksFinal_pos h)
  have whole : ∀ l ∈ before ++ line :: after, Whole l := by
    rw [← heq]
    exact continued_whole banner.continued
  refine ⟨after, fun l hl => whole l (by simp [hl]), ?_⟩
  rw [Reply.lines, heq, List.append_assoc, List.append_assoc, List.cons_append,
    readBanner_skip (fun l hl => readUntil_whole (whole l (by simp [hl]))) none,
    readBanner_final (readUntil_whole (whole line (by simp))) hf, List.append_assoc]

lemma reply_read (h : looksFinal reply.continued = 0) :
    ∃ text, readReply ending output (reply.lines ++ ls) = (verdict text reply.final, ls) := by
  refine ⟨(reply.continued.map Continued.line).foldl (fun text line => text ++ fromUtf8Lossy line)
    output, ?_⟩
  rw [Reply.lines, List.append_assoc, readReply_skip
    (fun l hl => readUntil_whole (continued_whole _ l hl)) (looksFinal_zero h)]
  exact readReply_final (readUntil_whole reply.whole) reply.isFinal

lemma reply_stops (h : looksFinal reply.continued ≠ 0) : ∃ text line after,
    readReply ending output (reply.lines ++ ls) = (verdict text line, after ++ ([reply.final] ++ ls)) := by
  rw [Reply.lines, List.append_assoc]
  exact readReply_stops (fun l hl => readUntil_whole (continued_whole _ l hl)) (looksFinal_pos h)

end Complete

/-- A reader that stops before the last line of a reply has not read all of it. -/
lemma unread_ne {after ls : List Line} (h : reply.final ∈ ls) :
    (after ++ (ls ++ lines more)).flatten ≠ more := by
  intro heq
  have length := congrArg List.length heq
  obtain ⟨ls₁, ls₂, rfl⟩ := List.append_of_mem h
  simp only [List.flatten_append, List.flatten_cons, List.length_append, lines_flatten] at length
  have : 0 < reply.final.length := by simp [Reply.final]
  omega

lemma complete_meets : (Delivery.complete banner reply more ending).Meets socketPath ↔
    (Delivery.complete banner reply more ending).Readable := by
  have whole : ∀ line ∈ banner.lines ++ reply.lines, Whole line := by
    intro line hm
    rcases List.mem_append.mp hm with hm | hm
    · exact banner.lines_whole line hm
    · exact reply.lines_whole line hm
  have run := @reloadBirdInner_connected socketPath
    ((banner.lines ++ reply.lines).flatten ++ more) ending
  rw [lines_append whole, List.append_assoc] at run
  simp only [Delivery.Meets, Delivery.Readable, Delivery.socket, run]
  by_cases hb : looksFinal banner.continued = 0
  · rw [banner_read hb]
    by_cases hr : looksFinal reply.continued = 0
    · obtain ⟨text, answered⟩ := @reply_read _ ending (lines more) "" hr
      simp only [answered, lines_flatten, hb, hr, verdict, reply.isError]
      by_cases hrej : reply.Rejects <;> simp [hrej]
    · obtain ⟨text, line, after, stops⟩ :=
        @reply_stops _ ending (lines more) "" hr
      have unread : (after ++ ([reply.final] ++ lines more)).flatten ≠ more :=
        unread_ne (List.mem_singleton_self reply.final)
      simp only [stops]
      exact ⟨fun h => absurd h.2.2 unread, fun h => absurd h.2 hr⟩
  · obtain ⟨after, hw, found⟩ := @banner_stops _ ending (reply.lines ++ lines more) hb
    have read : ∀ line ∈ after ++ [banner.final], readUntil ending line = .ok line := by
      intro line hm
      rcases List.mem_append.mp hm with hm | hm
      · exact readUntil_whole (hw line hm)
      · obtain rfl := List.mem_singleton.mp hm
        exact readUntil_whole banner.whole
    obtain ⟨text, line, after', stops⟩ := @readReply_stops _ _
      (reply.lines ++ lines more) "" read ⟨banner.final, by simp, banner.isFinal⟩
    have last : reply.final ∈ reply.lines := by simp [Reply.lines]
    have unread : (after' ++ (reply.lines ++ lines more)).flatten ≠ more := unread_ne last
    simp only [found, stops]
    exact ⟨fun h => absurd h.2.2 unread, fun h => absurd h.1 hb⟩

section Cut
variable {bytes : List UInt8}

lemma prefix_append_cases {a b : List UInt8} (h : bytes <+: a ++ b) :
    bytes <+: a ∨ ∃ t, bytes = a ++ t ∧ t <+: b := by
  rcases List.prefix_or_prefix_of_prefix h (List.prefix_append a b) with h' | ⟨t, rfl⟩
  · exact .inl h'
  · exact .inr ⟨t, rfl, (List.prefix_append_right_inj a).mp h⟩

def LineText.cut (text : LineText) (h : bytes <+: text.bytes) : LineText :=
  ⟨bytes, fun hm => text.oneLine (h.subset hm)⟩

lemma cut_code {code : Code} {b : UInt8} {text : LineText}
    (h : bytes <+: code.bytes ++ b :: text.bytes) :
    (∃ f : Fragment, f.bytes = bytes) ∨ ∃ t : LineText, bytes = code.bytes ++ b :: t.bytes := by
  have digits : ∀ l, l <+: code.bytes → ∃ f : Fragment, f.bytes = l := fun l hl =>
    ⟨.digits l (by rw [← code.length]; exact hl.length_le) fun b hb => code.digits b (hl.subset hb),
      rfl⟩
  rcases prefix_append_cases h with h | ⟨t, rfl, ht⟩
  · exact .inl (digits bytes h)
  · rcases List.prefix_cons_iff.mp ht with rfl | ⟨t, rfl, hts⟩
    · rw [List.append_nil]
      exact .inl (digits _ (List.prefix_refl _))
    · exact .inr ⟨text.cut hts, rfl⟩

lemma Continued.cut {c : Continued} (h : bytes <+: c.body) : ∃ f : Fragment, f.bytes = bytes := by
  cases c with
  | coded code text =>
    rcases cut_code h with cut | ⟨t, rfl⟩
    · exact cut
    · exact ⟨.body (.coded code t), rfl⟩
  | plain text =>
    rcases List.prefix_cons_iff.mp h with rfl | ⟨t, rfl, ht⟩
    · exact ⟨.digits [] (by decide) (by simp), rfl⟩
    · exact ⟨.body (.plain (text.cut ht)), rfl⟩

lemma Reply.cut_final (h : bytes <+: reply.final) (hne : bytes ≠ reply.final) :
    ∃ f : Fragment, f.bytes = bytes := by
  rcases List.prefix_concat_iff.mp h with rfl | h
  · exact absurd rfl hne
  · rcases cut_code h with cut | ⟨t, rfl⟩
    · exact cut
    · exact ⟨.final reply.code t, rfl⟩

lemma Reply.cut (h : bytes <+: reply.lines.flatten) (hne : bytes ≠ reply.lines.flatten) :
    ∃ (cs : List Continued) (f : Fragment),
      bytes = (cs.map Continued.line).flatten ++ f.bytes := by
  have key : ∀ (ds : List Continued) (bytes : List UInt8),
      bytes <+: (ds.map Continued.line).flatten ++ reply.final →
      bytes ≠ (ds.map Continued.line).flatten ++ reply.final →
      ∃ (cs : List Continued) (f : Fragment),
        bytes = (cs.map Continued.line).flatten ++ f.bytes := by
    intro ds
    induction ds with
    | nil =>
      intro bytes h hne
      obtain ⟨f, rfl⟩ := Reply.cut_final h hne
      exact ⟨[], f, rfl⟩
    | cons d ds ih =>
      intro bytes h hne
      rw [List.map_cons, List.flatten_cons, List.append_assoc] at h hne
      rcases prefix_append_cases h with h | ⟨t, rfl, ht⟩
      · rcases List.prefix_concat_iff.mp h with rfl | h
        · exact ⟨[d], .digits [] (by decide) (by simp), by simp [Fragment.bytes, Continued.line]⟩
        · obtain ⟨f, rfl⟩ := Continued.cut h
          exact ⟨[], f, rfl⟩
      · obtain ⟨cs, f, rfl⟩ := ih t ht fun he => hne (by rw [he])
        exact ⟨d :: cs, f, by simp⟩
  simp only [Reply.lines, List.flatten_append, List.flatten_cons, List.flatten_nil,
    List.append_nil] at h hne
  exact key _ _ h hne

/-- The stream ends before the final line of the reply is complete. -/
def Delivery.Cut : Delivery → Prop
  | .complete .. => False
  | _ => True

/-- Wherever a banner and a reply break off, what is received is one of the deliveries. -/
theorem Delivery.of_prefix (h : bytes <+: (banner.lines ++ reply.lines).flatten)
    (hne : bytes ≠ (banner.lines ++ reply.lines).flatten) :
    ∃ d : Delivery, d.Cut ∧ d.socket = ⟨none, none, bytes, .closed⟩ := by
  rw [List.flatten_append] at h hne
  rcases prefix_append_cases h with h | ⟨t, rfl, ht⟩
  · by_cases whole : bytes = banner.lines.flatten
    · exact ⟨.noReply banner [] (.digits [] (by decide) (by simp)), trivial,
        by simp [Delivery.socket, Fragment.bytes, whole]⟩
    · obtain ⟨cs, f, rfl⟩ := Reply.cut h whole
      exact ⟨.noBanner cs f, trivial, rfl⟩
  · obtain ⟨cs, f, rfl⟩ := Reply.cut ht fun he => hne (by rw [he])
    exact ⟨.noReply banner cs f, trivial, by simp [Delivery.socket]⟩

end Cut

/-- The reader follows the protocol exactly where no line takes the look of a final one. -/
theorem reload_follows_protocol (socketPath : String) (d : Delivery) :
    d.Meets socketPath ↔ d.Readable := by
  cases d with
  | complete banner reply more ending => exact complete_meets
  | noBanner continued rest => exact noBanner_meets
  | noReply banner continued rest => exact noReply_meets

end Delivery

section Sample

def ascii (text : String) : List UInt8 := text.toList.map fun c => .ofNat c.toNat

/-- BIRD rejects a file; the second line of its reply has a space as its fifth byte. -/
def rejectedReply : Reply where
  continued := [.coded ⟨[0x30, 0x30, 0x30, 0x32], by decide, by decide +kernel⟩
      ⟨ascii "Reading configuration from bird.conf", by decide⟩,
    .plain ⟨ascii "the file of peers", by decide⟩]
  code := ⟨[0x38, 0x30, 0x30, 0x32], by decide, by decide +kernel⟩
  text := ⟨ascii "bird.conf:12:3 syntax error", by decide⟩

def sampleBanner : Reply where
  continued := []
  code := ⟨[0x30, 0x30, 0x30, 0x31], by decide, by decide +kernel⟩
  text := ⟨ascii "BIRD 2.15 ready.", by decide⟩

/-- The reader reports success, and leaves the line with the error unread. -/
theorem rejected_reload_ok : rejectedReply.Rejects ∧
    ¬(Delivery.complete sampleBanner rejectedReply [] .closed).Meets "/run/bird/bird.ctl" := by
  have rejects : rejectedReply.Rejects := by decide
  have ok : (reloadBirdInner "/run/bird/bird.ctl"
      (Delivery.complete sampleBanner rejectedReply [] .closed).socket).1.isOk = true := by
    decide +kernel
  refine ⟨rejects, fun h => ?_⟩
  obtain ⟨stderr, he⟩ := h.1 rejects
  rw [he] at ok
  cases ok

end Sample

end Autopeer.BirdReply
