import Autopeer.BirdTriples

/-! What `generation_matches` compares: the `.conf` files of a directory, in whatever order they are
read, whatever else is there. -/
namespace Autopeer.GenerationReading
open PeerData ProgramTree ProgramTriples BirdGeneration BirdCalls BirdTriples
open LinkedDirectories hiding exec

section Entries
variable {β : Type} {actual desired : Std.ExtTreeMap String β} {entries : List (String × β)}
  {name : String} {content : β}

/-- The loop over the entries of a directory with their contents. -/
def collect (actual : Std.ExtTreeMap String β) : List (String × β) → Std.ExtTreeMap String β
  | [] => actual
  | entry :: entries =>
    if entry.1.endsWith ".conf" then collect (actual.insert entry.1 entry.2) entries
    else collect actual entries

def entriesMatch [DecidableEq β] (entries : List (String × β)) (desired : Std.ExtTreeMap String β) :
    Bool := decide (collect ∅ entries = desired)

lemma collect_get_of_notMem
    (h : ∀ entry ∈ entries, entry.1 = name → entry.1.endsWith ".conf" = false) :
    (collect actual entries)[name]? = actual[name]? := by
  induction entries generalizing actual with
  | nil => rfl
  | cons entry entries ih =>
    rw [List.forall_mem_cons] at h
    simp only [collect]
    split
    · rename_i conf
      have hne : entry.1 ≠ name := fun heq => by
        rw [h.1 heq] at conf
        cases conf
      rw [ih h.2, Std.ExtTreeMap.getElem?_insert]
      simp [hne]
    · exact ih h.2

/-- Each name is there once, so the order of the entries does not matter. -/
lemma collect_get_of_mem (distinct : (entries.map Prod.fst).Nodup) (hm : (name, content) ∈ entries)
    (conf : name.endsWith ".conf" = true) : (collect actual entries)[name]? = some content := by
  induction entries generalizing actual with
  | nil => cases hm
  | cons entry entries ih =>
    obtain ⟨fresh, distinct⟩ := List.nodup_cons.mp distinct
    rcases List.mem_cons.mp hm with rfl | hm
    · rw [collect, if_pos conf, collect_get_of_notMem, Std.ExtTreeMap.getElem?_insert]
      · simp
      · rintro other hother rfl
        exact absurd (List.mem_map_of_mem hother) fresh
    · simp only [collect]
      split
      · exact ih distinct hm
      · exact ih distinct hm

theorem collect_get (distinct : (entries.map Prod.fst).Nodup) :
    (collect ∅ entries)[name]? = some content ↔
      (name, content) ∈ entries ∧ name.endsWith ".conf" = true := by
  constructor
  · intro h
    by_cases hm : ∃ content', (name, content') ∈ entries ∧ name.endsWith ".conf" = true
    · obtain ⟨content', hm, conf⟩ := hm
      rw [collect_get_of_mem distinct hm conf, Option.some.injEq] at h
      exact ⟨h ▸ hm, conf⟩
    · have none : (collect ∅ entries)[name]? = (∅ : Std.ExtTreeMap String β)[name]? := by
        apply collect_get_of_notMem
        rintro entry hentry rfl
        by_contra conf
        exact hm ⟨entry.2, hentry, by simpa using conf⟩
      rw [none] at h
      simp at h
  · rintro ⟨hm, conf⟩
    exact collect_get_of_mem distinct hm conf

/-- The comparison says yes exactly when the `.conf` files have the names and contents that are
wanted. -/
theorem entriesMatch_iff [DecidableEq β] (distinct : (entries.map Prod.fst).Nodup) :
    entriesMatch entries desired = true ↔ ∀ name content, desired[name]? = some content ↔
      (name, content) ∈ entries ∧ name.endsWith ".conf" = true := by
  rw [entriesMatch, decide_eq_true_eq]
  constructor
  · rintro rfl name content
    exact collect_get distinct
  · intro h
    apply Std.ExtTreeMap.ext_getElem?
    intro name
    apply Option.ext
    intro content
    rw [collect_get distinct, h]

end Entries

section Listings
variable {t : Tree} {path name : String} {names names' : List String} {g g' : Generation}
  {files : Files}

def entryContent (t : Tree) (path name : String) : Option String :=
  (t.resolve path).bind fun files => files[name]?

def readEntries (t : Tree) (path : String) (names : List String) : List (String × String) :=
  names.map fun name => (name, (entryContent t path name).getD "")

/-- Every `.conf` entry is a file. -/
def Readable (t : Tree) (path : String) (names : List String) : Prop :=
  ∀ name ∈ names, name.endsWith ".conf" = true → (entryContent t path name).isSome

/-- There is something to read under the path. -/
def Present (t : Tree) (path : String) : Prop := t.resolve path ≠ none ∨ t.inside path ≠ []

/-- A reader of the directory finds these `.conf` files. -/
def Shows (t : Tree) (path : String) (g : Generation) : Prop :=
  Present t path ∧
    ∃ names, t.Lists path names ∧ Readable t path names ∧ collect ∅ (readEntries t path names) = g

lemma entryPath_injective (path : String) :
    Function.Injective fun name : String => path ++ "/" ++ name := by
  intro first second h
  exact (String.append_right_inj (path ++ "/")).mp h

lemma lists_nodup (h : t.Lists path names) : names.Nodup := by
  have hpaths : (t.entryPaths path).Nodup := by
    unfold Tree.entryPaths
    cases t.resolve path with
    | some files => exact Std.ExtTreeMap.nodup_keys.map (entryPath_injective path)
    | none => exact Std.ExtTreeMap.nodup_keys.filter _
  exact ((h.nodup_iff).mpr hpaths).of_map

lemma readEntries_names : (readEntries t path names).map Prod.fst = names := by
  rw [readEntries, List.map_map]
  exact List.map_id' names

/-- Two readings of a directory find the same entries. -/
lemma lists_perm (h : t.Lists path names) (h' : t.Lists path names') : names.Perm names' :=
  (List.map_perm_map_iff (entryPath_injective path)).mp (h.trans h'.symm)

lemma Shows.readable (h : Shows t path g) (hl : t.Lists path names) : Readable t path names := by
  obtain ⟨-, names', hl', readable, -⟩ := h
  exact fun name hn => readable name ((lists_perm hl hl').mem_iff.mp hn)

lemma Shows.collect_eq (h : Shows t path g) (hl : t.Lists path names) :
    collect ∅ (readEntries t path names) = g := by
  obtain ⟨-, names', hl', -, rfl⟩ := h
  have perm : (readEntries t path names).Perm (readEntries t path names') := (lists_perm hl hl').map _
  apply Std.ExtTreeMap.ext_getElem?
  intro name
  apply Option.ext
  intro content
  rw [collect_get (by simpa only [readEntries_names] using lists_nodup hl),
    collect_get (by simpa only [readEntries_names] using lists_nodup hl'), perm.mem_iff]

lemma lists_keys (h : t.resolve path = some files) : t.Lists path files.keys := by
  simp only [Tree.Lists, Tree.entryPaths, h]
  exact List.Perm.refl _

/-- A directory of files shows its `.conf` files. -/
theorem shows_iff (h : t.resolve path = some files) : Shows t path g ↔ confFiles files = g := by
  have there : ∀ name ∈ files.keys, (entryContent t path name).isSome := by
    intro name hn
    rwa [entryContent, h, Option.bind_some, ← Std.ExtTreeMap.mem_iff_isSome_getElem?,
      ← Std.ExtTreeMap.mem_keys]
  have keys := lists_keys h
  have hfiles : collect ∅ (readEntries t path files.keys) = confFiles files := by
    apply Std.ExtTreeMap.ext_getElem?
    intro name
    apply Option.ext
    intro content
    rw [collect_get (by simpa only [readEntries_names] using lists_nodup keys), confFiles_get,
      Option.filter_eq_some_iff]
    refine and_congr_left fun _ => ?_
    simp only [readEntries, List.mem_map, Prod.mk.injEq, Std.ExtTreeMap.mem_keys, entryContent, h,
      Option.bind_some]
    constructor
    · rintro ⟨_, hmem, rfl, rfl⟩
      obtain ⟨text, ht⟩ := Option.isSome_iff_exists.mp (Std.ExtTreeMap.mem_iff_isSome_getElem?.mp hmem)
      simp [ht]
    · intro ht
      refine ⟨name, ?_, rfl, by simp [ht]⟩
      rw [Std.ExtTreeMap.mem_iff_isSome_getElem?, ht]
      rfl
  constructor
  · intro shows
    exact hfiles.symm.trans (shows.collect_eq keys)
  · rintro rfl
    exact ⟨.inl (by simp [h]), files.keys, keys, fun name hn _ => there name hn, hfiles⟩

/-- A directory can be read. -/
lemma exists_listing (t : Tree) (path : String) : ∃ names, t.Lists path names := by
  cases h : t.resolve path with
  | some files => exact ⟨files.keys, lists_keys h⟩
  | none =>
    have hnames : ∀ dirs : List String, (∀ dir ∈ dirs, dir.startsWith (path ++ "/") = true) →
        ∃ names : List String, names.map (fun name => path ++ "/" ++ name) = dirs := by
      intro dirs hdirs
      induction dirs with
      | nil => exact ⟨[], rfl⟩
      | cons dir dirs ih =>
        rw [List.forall_mem_cons] at hdirs
        obtain ⟨names, rfl⟩ := ih hdirs.2
        obtain ⟨rest, hrest⟩ := String.startsWith_string_iff.mp hdirs.1
        refine ⟨String.ofList rest :: names, ?_⟩
        rw [List.map_cons]
        congr 1
        apply String.toList_inj.mp
        rw [String.toList_append, String.toList_ofList, hrest]
    obtain ⟨names, hn⟩ := hnames (t.inside path) fun dir hd => (List.mem_filter.mp hd).2
    refine ⟨names, ?_⟩
    simp only [Tree.Lists, Tree.entryPaths, h, hn]
    exact List.Perm.refl _

end Listings

section Calls
variable {o : Outcome} {t t' : Tree} {path name : String}

lemma nextEntry_effect {r : Except Refusal Unit}
    (h : LinkedDirectories.exec o (.nextEntry path) t = some (r, t')) :
    t' = t ∧ (o.refused = none → r = .ok ()) := by
  refine ⟨exec_looks rfl h, fun clean => ?_⟩
  rcases exec_cases h with ⟨text, hr, -⟩ | ⟨-, h⟩
  · cases clean.symm.trans hr
  · exact (Prod.mk.inj (Option.some.inj h)).1.symm

lemma read_effect {r : Except Refusal String}
    (h : LinkedDirectories.exec o (.read path name) t = some (r, t')) :
    t' = t ∧ (∀ text, r = .ok text → entryContent t path name = some text) ∧
      (o.refused = none → (entryContent t path name).isSome → ∃ text, r = .ok text) := by
  refine ⟨exec_looks rfl h, ?_⟩
  rcases exec_cases h with ⟨text, hr, rfl, -⟩ | ⟨-, h⟩
  · exact ⟨by simp, fun clean => by simp [hr] at clean⟩
  · simp only [perform] at h
    split at h
    · rename_i text there
      obtain ⟨rfl, -⟩ := Prod.mk.inj (Option.some.inj h)
      exact ⟨fun _ heq => there.trans (congrArg some (Except.ok.inj heq)), fun _ _ => ⟨text, rfl⟩⟩
    · rename_i missing
      obtain ⟨rfl, -⟩ := Prod.mk.inj (Option.some.inj h)
      refine ⟨by simp, fun _ there => ?_⟩
      rw [entryContent, missing] at there
      cases there

lemma readDir_effect {r : Except Refusal (List String)}
    (h : LinkedDirectories.exec o (.readDir path) t = some (r, t')) :
    t' = t ∧ (∀ names, r = .ok names → Present t path ∧ t.Lists path names) ∧
      (r = .error .notFound → ¬Present t path) ∧
      (o.refused = none → (∃ names, r = .ok names) ∨ r = .error .notFound) := by
  refine ⟨exec_looks rfl h, ?_⟩
  rcases exec_cases h with ⟨text, hr, rfl, -⟩ | ⟨-, h⟩
  · exact ⟨by simp, by simp, fun clean => by simp [hr] at clean⟩
  · simp only [perform] at h
    split at h
    · rename_i missing
      obtain ⟨rfl, -⟩ := Prod.mk.inj (Option.some.inj h)
      refine ⟨by simp, fun _ present => ?_, fun _ => .inr rfl⟩
      rcases present with hne | hne
      · exact hne missing.1
      · exact hne missing.2
    · rename_i present
      split at h
      · rename_i lists
        obtain ⟨rfl, -⟩ := Prod.mk.inj (Option.some.inj h)
        refine ⟨?_, by simp, fun _ => .inl ⟨_, rfl⟩⟩
        rintro names heq
        obtain rfl := Except.ok.inj heq
        exact ⟨not_and_or.mp present, lists⟩
      · cases h

end Calls

section Comparison
variable {P : BirdCall → BirdOutcome → Prop} {C : BirdCall → Prop} {d : BirdDisk} {path : String}
  {actual desired : Generation} {names : List String}

/-- No step on the files fails. -/
def Clean (P : BirdCall → BirdOutcome → Prop) : Prop :=
  ∀ e o, P (.file e) o → o.file.refused = none

/-- What the loop over the entries returns. -/
structure ReadsTo (d : BirdDisk) (path : String) (actual : Generation) (names : List String)
    (clean : Prop) (r : Except PeerError Generation) : Prop where
  ok : ∀ g, r = .ok g → Readable d.tree path names ∧ g = collect actual (readEntries d.tree path names)
  works : clean → Readable d.tree path names → ∃ g, r = .ok g

lemma must_readGeneration (looks : ∀ e, e.looks = true → C (.file e)) :
    Must exec P C (readGeneration path actual names).run d fun r d' =>
      d' = d ∧ ReadsTo d path actual names (Clean P) r := by
  induction names generalizing actual with
  | nil =>
    apply Must.bind (A := fun r d' => d' = d ∧ (Clean P → r = .ok ()))
    · refine must_fileCall (looks _ rfl) fun o r t ho hx => ?_
      obtain ⟨rfl, works⟩ := nextEntry_effect hx
      refine ⟨rfl, fun clean => ?_⟩
      rw [works (clean _ o ho)]
      rfl
    · rintro _ v ⟨rfl, -⟩
      refine ⟨rfl, fun g hg => ⟨by simp [Readable], ?_⟩, fun _ _ => ⟨actual, rfl⟩⟩
      exact (Except.ok.inj hg).symm
    · rintro error v ⟨rfl, works⟩
      exact ⟨rfl, by simp, fun clean => by simpa using works clean⟩
  | cons name names ih =>
    apply Must.bind (A := fun r d' => d' = d ∧ (Clean P → r = .ok ()))
    · refine must_fileCall (looks _ rfl) fun o r t ho hx => ?_
      obtain ⟨rfl, works⟩ := nextEntry_effect hx
      refine ⟨rfl, fun clean => ?_⟩
      rw [works (clean _ o ho)]
      rfl
    · rintro _ v ⟨rfl, -⟩
      split
      · rename_i conf
        apply Must.bind (A := fun r d' => d' = v ∧
          (∀ text, r = .ok text → entryContent v.tree path name = some text) ∧
          (Clean P → (entryContent v.tree path name).isSome → ∃ text, r = .ok text))
        · refine must_fileCall (looks _ rfl) fun o r t ho hx => ?_
          obtain ⟨rfl, content, works⟩ := read_effect hx
          refine ⟨rfl, fun text hr => ?_, fun clean there => ?_⟩
          · cases r with
            | ok text' => exact content text (congrArg Except.ok (Except.ok.inj hr))
            | error source => cases hr
          · obtain ⟨text, rfl⟩ := works (clean _ o ho) there
            exact ⟨text, rfl⟩
        · rintro text v' ⟨rfl, content, -⟩
          have here := content text rfl
          refine ih.mono fun r d' ⟨same, reads⟩ => ⟨same, fun g hg => ?_, fun clean readable => ?_⟩
          · obtain ⟨readable, rfl⟩ := reads.ok g hg
            refine ⟨List.forall_mem_cons.mpr ⟨fun _ => by simp [here], readable⟩, ?_⟩
            simp [readEntries, collect, conf, here]
          · exact reads.works clean (List.forall_mem_cons.mp readable).2
        · rintro error v' ⟨rfl, -, works⟩
          refine ⟨rfl, by simp, fun clean readable => ?_⟩
          obtain ⟨text, h⟩ := works clean ((List.forall_mem_cons.mp readable).1 conf)
          cases h
      · rename_i other
        refine ih.mono fun r d' ⟨same, reads⟩ => ⟨same, fun g hg => ?_, fun clean readable => ?_⟩
        · obtain ⟨readable, rfl⟩ := reads.ok g hg
          refine ⟨List.forall_mem_cons.mpr ⟨fun conf => absurd conf other, readable⟩, ?_⟩
          simp [readEntries, collect, other]
        · exact reads.works clean (List.forall_mem_cons.mp readable).2
    · rintro error v ⟨rfl, works⟩
      exact ⟨rfl, by simp, fun clean => by simpa using works clean⟩

/-- The comparison tells the truth whenever it ends well, and it does so where no step fails. -/
theorem must_generationMatches (looks : ∀ e, e.looks = true → C (.file e)) :
    Must exec P C (generationMatches path desired).run d fun r d' =>
      d' = d ∧ (∀ b, r = .ok b → (b = true ↔ Shows d.tree path desired)) ∧
        (Clean P → (∃ g, Shows d.tree path g) → ∃ b, r = .ok b) := by
  apply Must.bind (A := fun r d' => d' = d ∧
    (∀ names, r = .ok (.ok names) → Present d.tree path ∧ d.tree.Lists path names) ∧
    (r = .ok (.error .notFound) → ¬Present d.tree path) ∧
    (Clean P → (∃ names, r = .ok (.ok names)) ∨ r = .ok (.error .notFound)))
  · refine must_rawCall (looks _ rfl) fun o r t ho hx => ?_
    obtain ⟨rfl, lists, missing, works⟩ := readDir_effect hx
    refine ⟨rfl, fun names h => lists names (Except.ok.inj h), fun h => missing (Except.ok.inj h),
      fun clean => ?_⟩
    rcases works (clean _ o ho) with ⟨names, rfl⟩ | rfl
    · exact .inl ⟨names, rfl⟩
    · exact .inr rfl
  · rintro r v ⟨rfl, lists, missing, works⟩
    cases r with
    | ok names =>
      obtain ⟨present, lists⟩ := lists names rfl
      apply Must.bind (must_readGeneration looks)
      · rintro g v' ⟨rfl, reads⟩
        obtain ⟨readable, rfl⟩ := reads.ok g rfl
        refine ⟨rfl, fun b hb => ?_, fun _ _ => ⟨_, rfl⟩⟩
        obtain rfl := Except.ok.inj hb
        rw [decide_eq_true_eq]
        constructor
        · exact fun heq => ⟨present, names, lists, readable, heq⟩
        · exact fun shows => shows.collect_eq lists
      · rintro error v' ⟨rfl, reads⟩
        refine ⟨rfl, by simp, fun clean ⟨g, shows⟩ => ?_⟩
        obtain ⟨g', h⟩ := reads.works clean (shows.readable lists)
        cases h
    | error source =>
      cases source with
      | notFound =>
        refine ⟨rfl, fun b hb => ?_, fun _ _ => ⟨false, rfl⟩⟩
        obtain rfl := Except.ok.inj hb
        exact ⟨by simp, fun shows => absurd shows.1 (missing rfl)⟩
      | alreadyExists =>
        refine ⟨rfl, by simp, fun clean _ => ?_⟩
        rcases works clean with ⟨names, h⟩ | h <;> cases h
      | other text =>
        refine ⟨rfl, by simp, fun clean _ => ?_⟩
        rcases works clean with ⟨names, h⟩ | h <;> cases h
  · rintro error v ⟨rfl, -, -, works⟩
    refine ⟨rfl, by simp, fun clean _ => ?_⟩
    rcases works clean with ⟨names, h⟩ | h <;> cases h

end Comparison

end Autopeer.GenerationReading
