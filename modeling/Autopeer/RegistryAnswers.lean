import Autopeer.RegistryCheck

/-! The answer of the registry check: who is authorized, and what does not matter for it. -/
namespace Autopeer.RegistryAnswers
open RequestParsing (trim)
open TextSlices RegistryCheck
open String (utf8Len)

variable {r r' : Registry} {asn : UInt32} {key : String}

section Values

/-- The maintainer between the first `(mntner/` of a value and the bracket at its end. -/
def MaintainerName (value maintainer : String) : Prop :=
  ∃ before, First marker value.toList before (maintainer.toList ++ [')'])

lemma valueOf_eq_some {name text : String} {item : Json} :
    valueOf name item = some text ↔ item = .array [.string name, .string text] := by
  constructor
  · intro h
    unfold valueOf at h
    split at h
    · rename_i first second harray
      split at h
      · rename_i hname
        rw [Json.asArray_eq_some.mp harray, Json.asStr_eq_some.mp hname, Json.asStr_eq_some.mp h]
      · cases h
    · cases h
  · rintro rfl
    simp [valueOf, Json.asArray, Json.asStr]

lemma utf8Len_marker : utf8Len marker = 8 := by decide

lemma utf8Len_toList (value : String) : utf8Len value.toList = value.utf8ByteSize := by
  rw [← String.utf8ByteSize_ofList, String.ofList_toList]

/-- A bracket at the end stands behind the marker, which ends in a slash. -/
lemma first_bracket {value : String} {before after : List Char}
    (h : First marker value.toList before after) (hend : value.toList.getLast? = some ')') :
    ∃ maintainer : String, after = maintainer.toList ++ [')'] := by
  rw [h.split] at hend
  rcases List.eq_nil_or_concat after with rfl | ⟨name, c, rfl⟩
  · have hslash : (before ++ marker ++ []).getLast? = some '/' := by
      rw [List.append_nil, List.getLast?_append_of_ne_nil _ (by decide)]
      decide
    rw [hslash] at hend
    exact absurd (Option.some.inj hend) (by decide)
  · rw [List.concat_eq_append, ← List.append_assoc, List.getLast?_append_of_ne_nil _ (by simp)] at hend
    have hc : c = ')' := by simpa using hend
    exact ⟨String.ofList name, by rw [String.toList_ofList, List.concat_eq_append, hc]⟩

/-- What the slice of a value is. -/
lemma slice_maintainer {value maintainer : String} {before : List Char}
    (h : First marker value.toList before (maintainer.toList ++ [')'])) :
    utf8Len before + 8 ≤ value.utf8ByteSize - 1 ∧
      slice value.toList (utf8Len before + 8) (value.utf8ByteSize - 1) =
        some maintainer.toList := by
  have hbracket : utf8Len [')'] = 1 := by decide
  have hsize : value.utf8ByteSize - 1 = utf8Len before + 8 + utf8Len maintainer.toList := by
    rw [← utf8Len_toList, h.split]
    simp only [String.utf8Len_append, utf8Len_marker, hbracket]
    omega
  refine ⟨by omega, ?_⟩
  have hslice := @slice_append (before ++ marker) maintainer.toList [')']
  rw [String.utf8Len_append, utf8Len_marker] at hslice
  rw [hsize, h.split, ← List.append_assoc]
  exact hslice

/-- Every slice that the check asks for lies within its value. -/
theorem slice_in_bounds {value : String} {start : ℕ} (hfind : find marker value.toList = some start)
    (hend : value.toList.getLast? = some ')') :
    start + 8 ≤ value.utf8ByteSize - 1 ∧
      (slice value.toList (start + 8) (value.utf8ByteSize - 1)).isSome := by
  obtain ⟨before, after, hfirst, rfl⟩ := find_spec.1 start hfind
  obtain ⟨maintainer, rfl⟩ := first_bracket hfirst hend
  obtain ⟨hle, hslice⟩ := slice_maintainer hfirst
  exact ⟨hle, by rw [hslice]; rfl⟩

theorem maintainerOf_spec (value : String) :
    (maintainerOf value = none ∧ ∀ maintainer, ¬MaintainerName value maintainer) ∨
      ∃ maintainer : String, maintainerOf value = some (some maintainer.toList) ∧
        MaintainerName value maintainer := by
  unfold maintainerOf
  cases hf : find marker value.toList with
  | none =>
    refine .inl ⟨rfl, fun maintainer hm => ?_⟩
    obtain ⟨before, hfirst⟩ := hm
    rw [find_of_first hfirst] at hf
    cases hf
  | some start =>
    simp only
    by_cases hend : value.toList.getLast? = some ')'
    · rw [if_pos hend]
      obtain ⟨before, after, hfirst, rfl⟩ := find_spec.1 start hf
      obtain ⟨maintainer, rfl⟩ := first_bracket hfirst hend
      exact .inr ⟨maintainer, by rw [(slice_maintainer hfirst).2], before, hfirst⟩
    · rw [if_neg hend]
      refine .inl ⟨rfl, fun maintainer hm => hend ?_⟩
      obtain ⟨before, hfirst⟩ := hm
      rw [hfirst.split, ← List.append_assoc, List.getLast?_append_of_ne_nil _ (by simp)]
      rfl

lemma MaintainerName.unique {value m m' : String} (h : MaintainerName value m)
    (h' : MaintainerName value m') : m = m' := by
  obtain ⟨before, hfirst⟩ := h
  obtain ⟨before', hfirst'⟩ := h'
  have := (hfirst.unique hfirst').2
  exact String.toList_inj.mp (List.append_cancel_right this)

/-- A value names a maintainer where it has the marker and the bracket. -/
theorem maintainerName_iff {value : String} : (∃ maintainer, MaintainerName value maintainer) ↔
    marker <:+: value.toList ∧ value.toList.getLast? = some ')' := by
  constructor
  · rintro ⟨maintainer, before, hfirst⟩
    refine ⟨⟨before, _, hfirst.split.symm⟩, ?_⟩
    rw [hfirst.split, ← List.append_assoc, List.getLast?_append_of_ne_nil _ (by simp)]
    rfl
  · rintro ⟨hin, hend⟩
    cases hf : find marker value.toList with
    | none => exact absurd hin (find_spec.2 hf)
    | some start =>
      obtain ⟨before, after, hfirst, -⟩ := find_spec.1 start hf
      obtain ⟨maintainer, rfl⟩ := first_bracket hfirst hend
      exact ⟨maintainer, before, hfirst⟩

end Values

section Loops

/-- An attribute of the AS number names the maintainer. -/
def Names (attributes : List Json) (maintainer : String) : Prop :=
  ∃ value, .array [.string "mnt-by", .string value] ∈ attributes ∧ MaintainerName value maintainer

lemma names_cons {item : Json} {attributes : List Json} {m : String} :
    Names (item :: attributes) m ↔
      (∃ value, valueOf "mnt-by" item = some value ∧ MaintainerName value m) ∨
        Names attributes m := by
  simp only [Names, List.mem_cons, valueOf_eq_some]
  constructor
  · rintro ⟨value, rfl | hmem, hname⟩
    · exact .inl ⟨value, rfl, hname⟩
    · exact .inr ⟨value, hmem, hname⟩
  · rintro (⟨value, rfl, hname⟩ | ⟨value, hmem, hname⟩)
    · exact ⟨value, .inl rfl, hname⟩
    · exact ⟨value, .inr hmem, hname⟩

/-- The first loop never panics and collects the maintainers that the attributes name. -/
theorem maintainers_spec (attributes : List Json) :
    ∃ names, maintainers attributes = some names ∧ ∀ m, m ∈ names ↔ Names attributes m := by
  induction attributes with
  | nil => exact ⟨[], rfl, by simp [Names]⟩
  | cons item attributes ih =>
    obtain ⟨names, hnames, hmem⟩ := ih
    cases hv : valueOf "mnt-by" item with
    | none =>
      refine ⟨names, by simp only [maintainers, hv, Option.bind_none, hnames], fun m => ?_⟩
      rw [hmem, names_cons, hv]
      simp
    | some value =>
      rcases maintainerOf_spec value with ⟨hnone, hno⟩ | ⟨maintainer, hsome, hname⟩
      · refine ⟨names, by simp only [maintainers, hv, Option.bind_some, hnone, hnames],
          fun m => ?_⟩
        rw [hmem, names_cons, hv]
        simp [hno]
      · refine ⟨maintainer :: names, ?_, fun m => ?_⟩
        · simp only [maintainers, hv, Option.bind_some, hsome, hnames, Option.map_some,
            String.ofList_toList]
        · rw [List.mem_cons, hmem, names_cons, hv]
          constructor
          · rintro (rfl | h)
            · exact .inl ⟨value, rfl, hname⟩
            · exact .inr h
          · rintro (⟨value', hvalue, hname'⟩ | h)
            · obtain rfl := Option.some.inj hvalue
              exact .inl (hname'.unique hname)
            · exact .inr h

/-- A maintainer whose document can be read lists one of the expected texts. -/
def Lists (r : Registry) (expected : List String) (maintainer : String) : Prop :=
  ∃ items, mntnerAttributes r maintainer = some items ∧
    ∃ value, .array [.string "auth", .string value] ∈ items ∧ trim value ∈ expected

lemma any_listsKey {expected : List String} {items : List Json} :
    items.any (listsKey expected) = true ↔
      ∃ value, .array [.string "auth", .string value] ∈ items ∧ trim value ∈ expected := by
  rw [List.any_eq_true]
  constructor
  · rintro ⟨item, hmem, hl⟩
    unfold listsKey at hl
    cases hv : valueOf "auth" item with
    | none =>
      rw [hv] at hl
      cases hl
    | some value =>
      rw [hv] at hl
      obtain ⟨text, htext, heq⟩ := List.any_eq_true.mp hl
      obtain rfl := eq_of_beq heq
      rw [valueOf_eq_some.mp hv] at hmem
      exact ⟨value, hmem, htext⟩
  · rintro ⟨value, hmem, htext⟩
    refine ⟨_, hmem, ?_⟩
    unfold listsKey
    rw [valueOf_eq_some.mpr rfl]
    exact List.any_eq_true.mpr ⟨_, htext, beq_self_eq_true _⟩

/-- The second loop passes over the maintainers that fail. -/
theorem anyMaintainer_iff {expected names : List String} :
    anyMaintainer r expected names = true ↔ ∃ m ∈ names, Lists r expected m := by
  induction names with
  | nil => simp [anyMaintainer]
  | cons m names ih =>
    rw [List.exists_mem_cons_iff, ← ih, anyMaintainer]
    cases hm : mntnerAttributes r m with
    | none => simp [Lists, hm]
    | some items =>
      have hlists : Lists r expected m ↔ items.any (listsKey expected) = true := by
        rw [any_listsKey]
        simp [Lists, hm]
      simp only [hlists]
      split
      · rename_i hany
        simp [hany]
      · rename_i hany
        simp [hany]

end Loops

section Answers

/-- A document that a URL answers with, under a status that the check takes. -/
def Fetches (r : Registry) (url : String) (taken : ℕ → Prop) (document : Json) : Prop :=
  ∃ status, r.get url = .answered status (some document) ∧ taken status

/-- The text is the key, or the fingerprint of the key where the key is a PGP block that parses. -/
def Matches (r : Registry) (key text : String) : Prop :=
  trim text = trim key ∨
    ("BEGIN PGP PUBLIC KEY BLOCK".toList <:+: key.toList ∧
      ∃ bytes, r.fingerprint key = some bytes ∧
        trim text = "pgp-fingerprint " ++ hexUpper bytes)

/-- A maintainer that the AS number names lists the key. -/
def Authorized (r : Registry) (asn : UInt32) (key : String) : Prop :=
  ∃ document attributes value maintainer,
    Fetches r (r.registryUrl ++ "/aut-num/AS" ++ toString asn)
      (fun status => ¬(400 ≤ status ∧ status < 600)) document ∧
    attributesOf document ("aut-num/AS" ++ toString asn) = some attributes ∧
    .array [.string "mnt-by", .string value] ∈ attributes ∧ MaintainerName value maintainer ∧
    ∃ mntner items text,
      Fetches r (r.registryUrl ++ "/mntner/" ++ maintainer)
        (fun status => 200 ≤ status ∧ status < 300) mntner ∧
      attributesOf mntner ("mntner/" ++ maintainer) = some items ∧
      .array [.string "auth", .string text] ∈ items ∧ Matches r key text

lemma autNumAttributes_ok {attributes : List Json} : autNumAttributes r asn = .ok attributes ↔
    ∃ document, Fetches r (r.registryUrl ++ "/aut-num/AS" ++ toString asn)
      (fun status => ¬(400 ≤ status ∧ status < 600)) document ∧
      attributesOf document ("aut-num/AS" ++ toString asn) = some attributes := by
  unfold autNumAttributes Fetches autNumKey
  cases hg : r.get (r.registryUrl ++ "/aut-num/AS" ++ toString asn) with
  | failed => simp
  | answered status body =>
    by_cases hs : 400 ≤ status ∧ status < 600
    · simp [hs]
    · cases body with
      | none => simp [hs]
      | some document =>
        cases ha : attributesOf document ("aut-num/AS" ++ toString asn) with
        | none => simp [hs, ha]
        | some items =>
          simp [hs, ha]
          omega

lemma mntnerAttributes_some {maintainer : String} {items : List Json} :
    mntnerAttributes r maintainer = some items ↔
      ∃ document, Fetches r (r.registryUrl ++ "/mntner/" ++ maintainer)
        (fun status => 200 ≤ status ∧ status < 300) document ∧
        attributesOf document ("mntner/" ++ maintainer) = some items := by
  unfold mntnerAttributes Fetches
  cases hg : r.get (r.registryUrl ++ "/mntner/" ++ maintainer) with
  | failed => simp
  | answered status body =>
    by_cases hs : 200 ≤ status ∧ status < 300
    · cases body with
      | none => simp [hs]
      | some document => simp [hs, mntnerKey]
    · simp [hs]

lemma mem_expectedAuthStrings {text : String} :
    trim text ∈ expectedAuthStrings r key ↔ Matches r key text := by
  have hpgp : isPgp key = true ↔ "BEGIN PGP PUBLIC KEY BLOCK".toList <:+: key.toList := by
    unfold isPgp
    cases hf : find "BEGIN PGP PUBLIC KEY BLOCK".toList key.toList with
    | none => simpa using find_spec.2 hf
    | some start =>
      obtain ⟨before, after, hfirst, -⟩ := find_spec.1 start hf
      simpa using ⟨before, after, hfirst.split.symm⟩
  unfold expectedAuthStrings Matches
  rw [List.mem_cons, ← hpgp]
  cases isPgp key with
  | false => simp
  | true =>
    cases r.fingerprint key with
    | none => simp
    | some bytes => simp

lemma authorized_iff {attributes : List Json} (h : autNumAttributes r asn = .ok attributes) :
    Authorized r asn key ↔
      ∃ m, Names attributes m ∧ Lists r (expectedAuthStrings r key) m := by
  constructor
  · rintro ⟨document, attributes', value, m, hdoc, hattr, hmem, hname, mntner, items, text, hm,
      hitems, hauth, hmatch⟩
    have hsame := autNumAttributes_ok.mpr ⟨document, hdoc, hattr⟩
    rw [h] at hsame
    obtain rfl := Except.ok.inj hsame
    exact ⟨m, ⟨value, hmem, hname⟩, items, mntnerAttributes_some.mpr ⟨mntner, hm, hitems⟩, text,
      hauth, mem_expectedAuthStrings.mpr hmatch⟩
  · rintro ⟨m, ⟨value, hmem, hname⟩, items, hitems, text, hauth, hmatch⟩
    obtain ⟨document, hdoc, hattr⟩ := autNumAttributes_ok.mp h
    obtain ⟨mntner, hm, hitems⟩ := mntnerAttributes_some.mp hitems
    exact ⟨document, attributes, value, m, hdoc, hattr, hmem, hname, mntner, items, text, hm,
      hitems, hauth, mem_expectedAuthStrings.mp hmatch⟩

/-- The check always has an answer; it is an error exactly where the aut-num object cannot be
read. -/
theorem check_spec (r : Registry) (asn : UInt32) (key : String) :
    (∃ e, autNumAttributes r asn = .error e ∧
        checkRegistryForAsnAndPubkey r asn key = some (.error e)) ∨
      ∃ attributes answer, autNumAttributes r asn = .ok attributes ∧
        checkRegistryForAsnAndPubkey r asn key = some (.ok answer) ∧
        (answer = true ↔ Authorized r asn key) := by
  unfold checkRegistryForAsnAndPubkey
  cases ha : autNumAttributes r asn with
  | error e => exact .inl ⟨e, rfl, rfl⟩
  | ok attributes =>
    obtain ⟨names, hnames, hmem⟩ := maintainers_spec attributes
    refine .inr ⟨attributes, anyMaintainer r (expectedAuthStrings r key) names, rfl,
      by simp only [hnames], ?_⟩
    rw [anyMaintainer_iff, authorized_iff ha]
    simp only [hmem]

theorem check_true_iff : checkRegistryForAsnAndPubkey r asn key = some (.ok true) ↔
    Authorized r asn key := by
  rcases check_spec r asn key with ⟨e, ha, hc⟩ | ⟨attributes, answer, ha, hc, hiff⟩
  · rw [hc]
    constructor
    · intro h
      cases Option.some.inj h
    · rintro ⟨document, attributes, -, -, hdoc, hattr, -⟩
      rw [autNumAttributes_ok.mpr ⟨document, hdoc, hattr⟩] at ha
      cases ha
  · rw [hc, ← hiff, Option.some.injEq, Except.ok.injEq]

end Answers

section Order

/-- The attribute names a maintainer whose document can be read. -/
def readable (r : Registry) (item : Json) : Bool :=
  match (valueOf "mnt-by" item).bind maintainerOf with
  | some (some maintainer) => (mntnerAttributes r (String.ofList maintainer)).isSome
  | _ => false

def isAuth (item : Json) : Bool := (valueOf "auth" item).isSome

/-- Two registries that both have the AS number and tell the same about it: the attributes stand in
any order, and there may be others in between that name no maintainer or one that fails. -/
structure Rearranged (r r' : Registry) (asn : UInt32) : Prop where
  fingerprint : r.fingerprint = r'.fingerprint
  autNum : ∃ attributes attributes', autNumAttributes r asn = .ok attributes ∧
    autNumAttributes r' asn = .ok attributes' ∧
    (attributes.filter (readable r)).Perm (attributes'.filter (readable r'))
  mntner : ∀ maintainer,
    (mntnerAttributes r maintainer = none ∧ mntnerAttributes r' maintainer = none) ∨
      ∃ items items', mntnerAttributes r maintainer = some items ∧
        mntnerAttributes r' maintainer = some items' ∧
        (items.filter isAuth).Perm (items'.filter isAuth)

lemma Rearranged.symm (h : Rearranged r r' asn) : Rearranged r' r asn where
  fingerprint := h.fingerprint.symm
  autNum := by
    obtain ⟨attributes, attributes', ha, ha', hperm⟩ := h.autNum
    exact ⟨attributes', attributes, ha', ha, hperm.symm⟩
  mntner := fun maintainer => by
    rcases h.mntner maintainer with ⟨hn, hn'⟩ | ⟨items, items', hi, hi', hperm⟩
    · exact .inl ⟨hn', hn⟩
    · exact .inr ⟨items', items, hi', hi, hperm.symm⟩

lemma readable_of_name {value : String} {name : List Char}
    (h : maintainerOf value = some (some name)) :
    readable r (.array [.string "mnt-by", .string value]) =
      (mntnerAttributes r (String.ofList name)).isSome := by
  unfold readable
  rw [valueOf_eq_some.mpr rfl, Option.bind_some, h]

lemma expectedAuthStrings_congr (h : r.fingerprint = r'.fingerprint) :
    expectedAuthStrings r key = expectedAuthStrings r' key := by
  unfold expectedAuthStrings
  rw [h]

lemma Rearranged.authorized (h : Rearranged r r' asn) (ha : Authorized r asn key) :
    Authorized r' asn key := by
  obtain ⟨attributes, attributes', hattr, hattr', hperm⟩ := h.autNum
  obtain ⟨m, ⟨value, hmem, hname⟩, items, hitems, text, hauth, htext⟩ :=
    (authorized_iff hattr).mp ha
  rw [authorized_iff hattr']
  have hreadable : readable r (.array [.string "mnt-by", .string value]) = true := by
    rcases maintainerOf_spec value with ⟨-, hno⟩ | ⟨m', hsome, hname'⟩
    · exact absurd hname (hno m)
    · rw [readable_of_name hsome, String.ofList_toList, hname'.unique hname, hitems]
      rfl
  have hthere := hperm.mem_iff.mp (List.mem_filter.mpr ⟨hmem, hreadable⟩)
  refine ⟨m, ⟨value, (List.mem_filter.mp hthere).1, hname⟩, ?_⟩
  rcases h.mntner m with ⟨hnone, -⟩ | ⟨items₁, items', hi, hi', hitem⟩
  · rw [hnone] at hitems
    cases hitems
  · rw [hi] at hitems
    obtain rfl := Option.some.inj hitems
    have hkept : isAuth (.array [.string "auth", .string text]) = true := by
      rw [isAuth, valueOf_eq_some.mpr rfl]
      rfl
    have hpresent := hitem.mem_iff.mp (List.mem_filter.mpr ⟨hauth, hkept⟩)
    rw [expectedAuthStrings_congr h.fingerprint] at htext
    exact ⟨items', hi', text, (List.mem_filter.mp hpresent).1, htext⟩

/-- The check answers `Ok(true)` exactly for the keys that a maintainer of the AS number lists. It
never slices out of bounds, and an `Ok` answer depends neither on the order of the attributes nor
on the maintainers that fail. -/
theorem registry_answers (r : Registry) (asn : UInt32) (key : String) :
    (checkRegistryForAsnAndPubkey r asn key = some (.ok true) ↔ Authorized r asn key) ∧
    (∀ (value : String) (start : ℕ), find marker value.toList = some start →
      value.toList.getLast? = some ')' → start + 8 ≤ value.utf8ByteSize - 1 ∧
        (slice value.toList (start + 8) (value.utf8ByteSize - 1)).isSome) ∧
    checkRegistryForAsnAndPubkey r asn key ≠ none ∧
    ∀ r', Rearranged r r' asn → ∃ answer,
      checkRegistryForAsnAndPubkey r asn key = some (.ok answer) ∧
        checkRegistryForAsnAndPubkey r' asn key = some (.ok answer) := by
  refine ⟨check_true_iff, fun value start => slice_in_bounds, ?_, fun r' h => ?_⟩
  · rcases check_spec r asn key with ⟨e, -, hc⟩ | ⟨attributes, answer, -, hc, -⟩
    · rw [hc]
      exact Option.some_ne_none _
    · rw [hc]
      exact Option.some_ne_none _
  · obtain ⟨attributes, attributes', hattr, hattr', -⟩ := h.autNum
    rcases check_spec r asn key with ⟨e, ha, -⟩ | ⟨_, answer, -, hc, hiff⟩
    · rw [hattr] at ha
      cases ha
    rcases check_spec r' asn key with ⟨e, ha, -⟩ | ⟨_, answer', -, hc', hiff'⟩
    · rw [hattr'] at ha
      cases ha
    have hsame : answer = answer' := by
      rw [Bool.eq_iff_iff, hiff, hiff']
      exact ⟨h.authorized, h.symm.authorized⟩
    exact ⟨answer, hc, by rw [hc', hsame]⟩

end Order

section Mock

def mockAutNum (attributes : List Json) : Json :=
  .object [("aut-num/AS4242421234", .object [("Attributes", .array attributes)])]

def mockMntner : Json :=
  .object [("mntner/TEST-MNT", .object [("Attributes", .array
    [.array [.string "mntner", .string "TEST-MNT"],
      .array [.string "auth", .string "ssh-ed25519 AAAAC3NzaC1lZDI1NTE5"]])])]

/-- One AS number and one maintainer; every other page is missing. -/
def mockRegistry (attributes : List Json) : Registry where
  registryUrl := "http://127.0.0.1:8081"
  get url :=
    if url = "http://127.0.0.1:8081/aut-num/AS4242421234" then
      .answered 200 (some (mockAutNum attributes))
    else if url = "http://127.0.0.1:8081/mntner/TEST-MNT" then .answered 200 (some mockMntner)
    else .answered 404 none
  fingerprint _ := none

def itself : Json := .array [.string "aut-num", .string "AS4242421234"]

def maintained : Json := .array [.string "mnt-by", .string "TEST-MNT(mntner/TEST-MNT)"]

def gone : Json := .array [.string "mnt-by", .string "OLD-MNT(mntner/OLD-MNT)"]

lemma mockRegistry_mntner (attributes attributes' : List Json) (m : String) :
    mntnerAttributes (mockRegistry attributes) m = mntnerAttributes (mockRegistry attributes') m := by
  have hkey : ("aut-num/AS4242421234" : String) ≠ "mntner/" ++ m := by
    intro h
    have := congrArg (fun text : String => text.toList.head?) h
    simp at this
  unfold mntnerAttributes mockRegistry
  simp only
  split_ifs with h
  · simp [attributesOf, mockAutNum, Json.get, mntnerKey, hkey]
  · rfl
  · rfl

lemma mockRegistry_autNum (attributes : List Json) :
    autNumAttributes (mockRegistry attributes) 4242421234 = .ok attributes := by
  have hurl : "http://127.0.0.1:8081" ++ "/aut-num/AS" ++ toString (4242421234 : UInt32) =
      "http://127.0.0.1:8081/aut-num/AS4242421234" := by decide +kernel
  have hkey : "aut-num/AS" ++ toString (4242421234 : UInt32) = "aut-num/AS4242421234" := by
    decide +kernel
  rw [autNumAttributes_ok]
  refine ⟨mockAutNum attributes, ⟨200, ?_, by decide⟩, ?_⟩
  · simp only [mockRegistry, hurl, if_true]
  · simp [hkey, attributesOf, mockAutNum, Json.get, Json.asArray]

lemma mock_readable (attributes : List Json) :
    readable (mockRegistry attributes) maintained = true ∧
      readable (mockRegistry attributes) gone = false ∧
      readable (mockRegistry attributes) itself = false := by
  have hthere : maintainerOf "TEST-MNT(mntner/TEST-MNT)" = some (some "TEST-MNT".toList) := by
    decide +kernel
  have hgone : maintainerOf "OLD-MNT(mntner/OLD-MNT)" = some (some "OLD-MNT".toList) := by
    decide +kernel
  refine ⟨?_, ?_, ?_⟩
  · rw [maintained, readable_of_name hthere]
    simp [mntnerAttributes, mockRegistry, mockMntner, attributesOf, Json.get, Json.asArray,
      mntnerKey]
  · rw [gone, readable_of_name hgone]
    simp [mntnerAttributes, mockRegistry]
  · simp [readable, itself, valueOf, Json.asArray, Json.asStr]

lemma mock_rearranged : Rearranged (mockRegistry [itself, maintained])
    (mockRegistry [gone, maintained, itself]) 4242421234 where
  fingerprint := rfl
  autNum := by
    refine ⟨[itself, maintained], [gone, maintained, itself], mockRegistry_autNum _,
      mockRegistry_autNum _, ?_⟩
    simp [mock_readable]
  mntner := fun m => by
    rw [mockRegistry_mntner [gone, maintained, itself] [itself, maintained] m]
    cases hm : mntnerAttributes (mockRegistry [itself, maintained]) m with
    | none => exact .inl ⟨rfl, rfl⟩
    | some items => exact .inr ⟨items, items, rfl, rfl, .refl _⟩

/-- A maintainer whose page is missing does not change the answer. -/
theorem registry_answers_mock : ∃ answer,
    checkRegistryForAsnAndPubkey (mockRegistry [itself, maintained]) 4242421234
        "ssh-ed25519 AAAAC3NzaC1lZDI1NTE5" = some (.ok answer) ∧
      checkRegistryForAsnAndPubkey (mockRegistry [gone, maintained, itself]) 4242421234
        "ssh-ed25519 AAAAC3NzaC1lZDI1NTE5" = some (.ok answer) :=
  (registry_answers _ _ _).2.2.2 _ mock_rearranged

end Mock

end Autopeer.RegistryAnswers
