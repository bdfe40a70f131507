-- The laws of manifests. What the text of a manifest says does not depend on the order of its
-- fields, and of all that is wrong with it the first is told, in a fixed order of the checks.
import SourceMacros.Manifest
import SourceMacros.Proofs.JsonReading
import Mathlib.Data.List.Forall2

namespace SourceMacros

open Json (Value Reads Adds Fills)

/-! ## The members of an object -/

namespace Json

variable {ms ms' front back : List (Option String × Value)} {names : List String}
  {key name : String} {v : Value}

/-- The value of the first member with the given name. -/
def valueAt (ms : List (Option String × Value)) (key : String) : Option Value :=
  (ms.find? (·.1 == some key)).map Prod.snd

def Value.text? : Value → Option String
  | .string text => text
  | _ => none

def Value.items? : Value → Option (List Value)
  | .array items => some items
  | _ => none

/-- The text of a member, unless that is absent or `null`. -/
def textAt (ms : List (Option String × Value)) (key : String) : Option String :=
  (valueAt ms key).bind Value.text?

def itemsAt (ms : List (Option String × Value)) (key : String) : Option (List Value) :=
  (valueAt ms key).bind Value.items?

/-- The value is a text, or `null`. -/
def Value.Textual (v : Value) : Prop := v = .null ∨ ∃ text, v = .string (some text)

-- The names of members that are skipped are read all the same, so they must be texts.
/-- Every member has a name, and no two have the same of the given ones. -/
structure Distinct (ms : List (Option String × Value)) (names : List String) : Prop where
  named : ∀ m ∈ ms, ∃ key, m.1 = some key
  once : ∀ key ∈ names, (ms.map Prod.fst).count (some key) ≤ 1

theorem valueAt_append_same (hnew : some key ∉ front.map Prod.fst) :
    valueAt (front ++ (some key, v) :: back) key = some v := by
  have hfront : front.find? (·.1 == some key) = none := by
    rw [List.find?_eq_none]
    intro m hm heq
    rw [beq_iff_eq] at heq
    exact hnew (heq ▸ List.mem_map_of_mem hm)
  simp [valueAt, List.find?_append, hfront]

theorem valueAt_append_other (hother : name ≠ key) :
    valueAt (front ++ [(some name, v)]) key = valueAt front key := by
  simp [valueAt, List.find?_append, hother]

theorem textAt_append_same (hnew : some key ∉ front.map Prod.fst) :
    textAt (front ++ [(some key, v)]) key = v.text? := by
  rw [textAt, valueAt_append_same hnew, Option.bind_some]

theorem textAt_append_other (hother : name ≠ key) :
    textAt (front ++ [(some name, v)]) key = textAt front key := by
  rw [textAt, valueAt_append_other hother, textAt]

theorem itemsAt_append_same (hnew : some key ∉ front.map Prod.fst) :
    itemsAt (front ++ [(some key, v)]) key = v.items? := by
  rw [itemsAt, valueAt_append_same hnew, Option.bind_some]

theorem itemsAt_append_other (hother : name ≠ key) :
    itemsAt (front ++ [(some name, v)]) key = itemsAt front key := by
  rw [itemsAt, valueAt_append_other hother, itemsAt]

/-- A member with one of the names is the first that has it. -/
theorem Distinct.notMem (h : Distinct (front ++ (some key, v) :: back) names)
    (hkey : key ∈ names) : some key ∉ front.map Prod.fst := by
  intro hmem
  have honce := h.once key hkey
  have hpos := List.count_pos_iff.mpr hmem
  rw [List.map_append, List.count_append, List.map_cons, List.count_cons_self] at honce
  omega

theorem Distinct.valueAt_eq_some (h : Distinct ms names) (hkey : key ∈ names) :
    valueAt ms key = some v ↔ (some key, v) ∈ ms := by
  constructor
  · intro hvalue
    obtain ⟨m, hm, rfl⟩ := Option.map_eq_some_iff.mp hvalue
    have hname := List.find?_some hm
    rw [beq_iff_eq] at hname
    exact hname ▸ List.mem_of_find?_eq_some hm
  · intro hmem
    obtain ⟨front, back, rfl⟩ := List.append_of_mem hmem
    exact valueAt_append_same (h.notMem hkey)

theorem Distinct.perm (h : Distinct ms names) (hperm : ms.Perm ms') : Distinct ms' names where
  named m hm := h.named m (hperm.mem_iff.mpr hm)
  once key hkey := by
    rw [← (hperm.map Prod.fst).count_eq]
    exact h.once key hkey

/-- The order of the members does not decide what a name stands for. -/
theorem Distinct.valueAt_perm (h : Distinct ms names) (hperm : ms.Perm ms') (hkey : key ∈ names) :
    valueAt ms' key = valueAt ms key := by
  ext v
  rw [(h.perm hperm).valueAt_eq_some hkey, h.valueAt_eq_some hkey, hperm.mem_iff]

theorem reads_textual (h : v.Textual) : Reads (nullable text) v v.text? := by
  rcases h with rfl | ⟨s, rfl⟩
  · exact reads_nullable_null text
  · exact (reads_text s).nullable (by simp)

/-- A member is read into the field of its name. -/
theorem adds_field {α σ : Type} {fields : List (Field σ)} {read : Reader α} {store : σ → α → σ}
    {optional : Bool} {ofMembers : List (Option String × Value) → σ} {a : α}
    (hfield : fields.find? (·.name == key) = some (.of name read store optional))
    (hnew : some key ∉ front.map Prod.fst) (hread : Reads read v a)
    (hstore : ofMembers (front ++ [(some key, v)]) = store (ofMembers front) a) :
    Adds fields ofMembers front key v :=
  Or.inr ⟨_, hfield, hnew, hstore ▸ hread.field name store optional (ofMembers front)⟩

/-- An object is read if each of its members is, where those that are known come for the first
time. -/
theorem Distinct.reads {σ : Type} {fields : List (Field σ)}
    (h : Distinct ms names) (ofMembers : List (Option String × Value) → σ)
    (hadds : ∀ front key v, (some key, v) ∈ ms → (key ∈ names → some key ∉ front.map Prod.fst) →
      Adds fields ofMembers front key v) :
    Reads (record fields (ofMembers [])) (.object ms) (ofMembers ms) := by
  refine reads_record ?_
  intro front m back hms
  obtain ⟨_, v⟩ := m
  have hmem : (_, v) ∈ ms := hms ▸ List.mem_append_right front List.mem_cons_self
  obtain ⟨key, rfl⟩ := h.named _ hmem
  subst hms
  exact ⟨key, rfl, hadds front key v hmem h.notMem⟩

end Json

open Json (textAt itemsAt textAt_append_same textAt_append_other itemsAt_append_same
  itemsAt_append_other reads_textual adds_field)

/-! ## Entries -/

namespace DraftEntry

/-- What the members of an object say about an entry. -/
def ofMembers (ms : List (Option String × Value)) : DraftEntry where
  name := textAt ms "name"
  keyword := textAt ms "keyword"
  description := textAt ms "description"
  file := textAt ms "file"

/-- What a value says about an entry. -/
def ofValue : Value → DraftEntry
  | .object ms => ofMembers ms
  | .array [name, keyword, description, file] =>
    ⟨name.text?, keyword.text?, description.text?, file.text?⟩
  | _ => {}

def names : List String := ["name", "keyword", "description", "file"]

/-- The value is an object whose known members are texts or `null`, each there at most once, or an
array of the four in order. -/
inductive Typed : Value → Prop
  | object {ms : List (Option String × Value)} : Json.Distinct ms names →
      (∀ key ∈ names, ∀ v, (some key, v) ∈ ms → v.Textual) → Typed (.object ms)
  | array {name keyword description file : Value} : name.Textual → keyword.Textual →
      description.Textual → file.Textual → Typed (.array [name, keyword, description, file])

theorem adds {front : List (Option String × Value)} {key : String} {v : Value}
    (hnew : key ∈ names → some key ∉ front.map Prod.fst) (hv : key ∈ names → v.Textual) :
    Adds fields ofMembers front key v := by
  by_cases hkey : key ∈ names
  · have hread := reads_textual (hv hkey)
    have hnew := hnew hkey
    simp only [names, List.mem_cons, List.not_mem_nil, or_false] at hkey
    rcases hkey with rfl | rfl | rfl | rfl
    all_goals
      refine adds_field rfl hnew hread ?_
      simp [ofMembers, textAt_append_same hnew, textAt_append_other]
  · left
    simp only [names, List.mem_cons, List.not_mem_nil, or_false, not_or] at hkey
    obtain ⟨hname, hkeyword, hdescription, hfile⟩ := hkey
    refine ⟨by simp [fields, Json.Field.of, Ne.symm hname, Ne.symm hkeyword, Ne.symm hdescription,
      Ne.symm hfile], ?_⟩
    simp only [ofMembers, textAt_append_other hname, textAt_append_other hkeyword,
      textAt_append_other hdescription, textAt_append_other hfile]

theorem reads_typed {v : Value} (h : Typed v) : Reads read v (ofValue v) := by
  cases h with
  | object hdistinct htexts =>
    exact hdistinct.reads ofMembers fun front key v hmem hnew =>
      adds hnew fun hkey => htexts key hkey v hmem
  | array hname hkeyword hdescription hfile =>
    refine Json.reads_record_array ?_ (by simp)
    exact .cons ((reads_textual hname).field _ _ _ _)
      (.cons ((reads_textual hkeyword).field _ _ _ _)
        (.cons ((reads_textual hdescription).field _ _ _ _)
          (.cons ((reads_textual hfile).field _ _ _ _) .nil)))

/-- The fields that an entry lacks, in the order of the checks. -/
def missing (e : DraftEntry) : List EntryField :=
  (if e.name = none then [.name] else []) ++ (if e.keyword = none then [.keyword] else []) ++
    (if e.description = none then [.description] else []) ++
    (if e.file = none then [.file] else [])

structure Complete (e : DraftEntry) : Prop where
  name : e.name ≠ none
  keyword : e.keyword ≠ none
  description : e.description ≠ none
  file : e.file ≠ none

end DraftEntry

/-- The entry as it was written. -/
def Entry.draft (e : Entry) : DraftEntry :=
  ⟨some e.name, some e.keyword, some e.description, some e.file⟩

namespace DraftEntry

theorem missing_eq_nil {e : DraftEntry} : e.missing = [] ↔ e.Complete := by
  constructor
  · intro h
    simp only [missing, List.append_eq_nil_iff, ite_eq_right_iff, List.cons_ne_self, imp_false] at h
    exact ⟨h.1.1.1, h.1.1.2, h.1.2, h.2⟩
  · rintro ⟨hname, hkeyword, hdescription, hfile⟩
    simp [missing, hname, hkeyword, hdescription, hfile]

/-- The check of an entry finds the first field that it lacks. -/
theorem check_of_missing {e : DraftEntry} {field : EntryField} {others : List EntryField}
    (h : e.missing = field :: others) : e.check = .error field := by
  obtain ⟨_ | name, _ | keyword, _ | description, _ | file⟩ := e
  all_goals
    simp [missing] at h
  all_goals simp [check, h]

theorem check_of_complete {e : DraftEntry} (h : e.missing = []) :
    ∃ entry, e.check = .ok entry ∧ entry.draft = e := by
  obtain ⟨_ | name, _ | keyword, _ | description, _ | file⟩ := e
  all_goals
    simp [missing] at h
  exact ⟨_, rfl, rfl⟩

end DraftEntry

/-! ## Manifests as written -/

namespace DraftManifest

/-- What the members of an object say about a manifest. -/
def ofMembers (ms : List (Option String × Value)) : DraftManifest where
  name := textAt ms "name"
  package := textAt ms "package"
  description := textAt ms "description"
  entries := (itemsAt ms "macros").map (·.map DraftEntry.ofValue)
  bootstrap := ((itemsAt ms "bootstrap").getD []).filterMap Value.text?

def names : List String := ["name", "package", "description", "macros", "bootstrap"]

/-- The members that are known have the right types, and each of them is there at most once. -/
structure Typed (ms : List (Option String × Value)) : Prop where
  distinct : Json.Distinct ms names
  texts : ∀ key ∈ ["name", "package", "description"], ∀ v, (some key, v) ∈ ms → v.Textual
  entries : ∀ v, (some "macros", v) ∈ ms →
    v = .null ∨ ∃ items, v = .array items ∧ ∀ item ∈ items, DraftEntry.Typed item
  bootstrap : ∀ v, (some "bootstrap", v) ∈ ms →
    ∃ files : List String, v = .array (files.map fun file => .string (some file))

theorem reads_entries {v : Value}
    (h : v = .null ∨ ∃ items, v = .array items ∧ ∀ item ∈ items, DraftEntry.Typed item) :
    Reads (Json.nullable (Json.array DraftEntry.read)) v
      (v.items?.map (·.map DraftEntry.ofValue)) := by
  rcases h with rfl | ⟨items, rfl, hitems⟩
  · exact Json.reads_nullable_null _
  · refine Reads.nullable (Reads.array ?_) (by simp)
    rw [List.forall₂_map_right_iff, List.forall₂_same]
    exact fun item hitem => DraftEntry.reads_typed (hitems item hitem)

theorem reads_bootstrap (files : List String) :
    Reads (Json.array Json.text) (.array (files.map fun file => .string (some file))) files := by
  refine Reads.array ?_
  rw [List.forall₂_map_left_iff, List.forall₂_same]
  exact fun file _ => Json.reads_text file

/-- Each known member is read into its field, the others are skipped. -/
theorem Typed.reads {ms : List (Option String × Value)} (h : Typed ms) :
    Reads read (.object ms) (ofMembers ms) := by
  refine h.distinct.reads ofMembers fun front key v hmem hnew => ?_
  by_cases hkey : key ∈ names
  · have hnew := hnew hkey
    have htext := fun htext => reads_textual (h.texts key htext v hmem)
    simp only [names, List.mem_cons, List.not_mem_nil, or_false] at hkey
    rcases hkey with rfl | rfl | rfl | rfl | rfl
    case inr.inr.inr.inl =>
      refine adds_field rfl hnew (reads_entries (h.entries v hmem)) ?_
      simp [ofMembers, textAt_append_other, itemsAt_append_same hnew, itemsAt_append_other]
    case inr.inr.inr.inr =>
      obtain ⟨files, rfl⟩ := h.bootstrap v hmem
      refine adds_field rfl hnew (reads_bootstrap files) ?_
      simp [ofMembers, textAt_append_other, itemsAt_append_same hnew, itemsAt_append_other,
        Value.items?, Value.text?, List.filterMap_map, Function.comp_def]
    all_goals
      refine adds_field rfl hnew (htext (by simp)) ?_
      simp [ofMembers, textAt_append_same hnew, textAt_append_other, itemsAt_append_other]
  · left
    simp only [names, List.mem_cons, List.not_mem_nil, or_false, not_or] at hkey
    obtain ⟨hname, hpackage, hdescription, hmacros, hbootstrap⟩ := hkey
    refine ⟨by simp [fields, Json.Field.of, Ne.symm hname, Ne.symm hpackage, Ne.symm hdescription,
      Ne.symm hmacros, Ne.symm hbootstrap], ?_⟩
    simp only [ofMembers, textAt_append_other hname, textAt_append_other hpackage,
      textAt_append_other hdescription, itemsAt_append_other hmacros,
      itemsAt_append_other hbootstrap]

theorem Typed.perm {ms ms' : List (Option String × Value)} (h : Typed ms)
    (hperm : ms.Perm ms') : Typed ms' where
  distinct := h.distinct.perm hperm
  texts key hkey v hv := h.texts key hkey v (hperm.mem_iff.mpr hv)
  entries v hv := h.entries v (hperm.mem_iff.mpr hv)
  bootstrap v hv := h.bootstrap v (hperm.mem_iff.mpr hv)

theorem Typed.ofMembers_perm {ms ms' : List (Option String × Value)} (h : Typed ms)
    (hperm : ms.Perm ms') : ofMembers ms' = ofMembers ms := by
  have hvalue : ∀ key ∈ names, Json.valueAt ms' key = Json.valueAt ms key := fun _ hkey =>
    h.distinct.valueAt_perm hperm hkey
  simp only [names, List.forall_mem_cons] at hvalue
  obtain ⟨hname, hpackage, hdescription, hmacros, hbootstrap, -⟩ := hvalue
  simp only [ofMembers, textAt, itemsAt, hname, hpackage, hdescription, hmacros, hbootstrap]

/-! ## The checks in their order -/

/-- What is wrong with entries, from the given index on. -/
def entryFaults (index : Nat) (drafts : List DraftEntry) : List ManifestCause :=
  (drafts.zipIdx index).flatMap fun (draft, i) => draft.missing.map (.entryMissing i)

def packageFaults : Option String → List ManifestCause
  | none => [.missingPackageName]
  | some package => if Letter.isIdentifier package then [] else [.invalidPackageName package]

/-- All that is wrong with a manifest, in the order of the checks. -/
def faults (m : DraftManifest) : List ManifestCause :=
  (if m.name = none then [.missingName] else []) ++ packageFaults m.package ++
    (if m.description = none then [.missingDescription] else []) ++
    (match m.entries with
    | none => [.missingMacros]
    | some drafts => entryFaults 0 drafts)

structure Complete (m : DraftManifest) : Prop where
  name : m.name ≠ none
  package : ∃ package, m.package = some package ∧ Letter.isIdentifier package = true
  description : m.description ≠ none
  entries : ∃ drafts, m.entries = some drafts ∧ ∀ draft ∈ drafts, draft.Complete

theorem entryFaults_cons (index : Nat) (draft : DraftEntry) (drafts : List DraftEntry) :
    entryFaults index (draft :: drafts) =
      draft.missing.map (.entryMissing index) ++ entryFaults (index + 1) drafts := rfl

theorem entryFaults_eq_nil {index : Nat} {drafts : List DraftEntry} :
    entryFaults index drafts = [] ↔ ∀ draft ∈ drafts, draft.Complete := by
  induction drafts generalizing index with
  | nil => simp [entryFaults]
  | cons draft drafts ih =>
    rw [entryFaults_cons, List.append_eq_nil_iff, List.map_eq_nil_iff, DraftEntry.missing_eq_nil,
      ih, List.forall_mem_cons]

theorem packageFaults_eq_nil {package : Option String} :
    packageFaults package = [] ↔ ∃ p, package = some p ∧ Letter.isIdentifier p = true := by
  cases package with
  | none => simp [packageFaults]
  | some p => simp [packageFaults]

theorem faults_eq_nil {m : DraftManifest} : m.faults = [] ↔ m.Complete := by
  simp only [faults, List.append_eq_nil_iff, packageFaults_eq_nil, ite_eq_right_iff,
    List.cons_ne_self, imp_false]
  constructor
  · rintro ⟨⟨⟨hname, hpackage⟩, hdescription⟩, hentries⟩
    refine ⟨hname, hpackage, hdescription, ?_⟩
    split at hentries
    · cases hentries
    · exact ⟨_, ‹_›, entryFaults_eq_nil.mp hentries⟩
  · rintro ⟨hname, hpackage, hdescription, drafts, hdrafts, hcomplete⟩
    refine ⟨⟨⟨hname, hpackage⟩, hdescription⟩, ?_⟩
    rw [hdrafts]
    exact entryFaults_eq_nil.mpr hcomplete

/-- The check of entries finds the first fault of the first that has any. -/
theorem checkEntries_of_fault {index : Nat} {drafts : List DraftEntry} {cause : ManifestCause}
    {others : List ManifestCause} (h : entryFaults index drafts = cause :: others) :
    checkEntries index drafts = .error cause := by
  induction drafts generalizing index with
  | nil => cases h
  | cons draft drafts ih =>
    rw [entryFaults_cons] at h
    unfold checkEntries
    cases hmissing : draft.missing with
    | cons field fields =>
      rw [hmissing, List.map_cons, List.cons_append, List.cons.injEq] at h
      simp only [DraftEntry.check_of_missing hmissing, h.1]
    | nil =>
      obtain ⟨entry, hentry, -⟩ := DraftEntry.check_of_complete hmissing
      rw [hmissing] at h
      rw [hentry, ih h]
      rfl

theorem checkEntries_of_complete {index : Nat} {drafts : List DraftEntry}
    (h : entryFaults index drafts = []) :
    ∃ entries, checkEntries index drafts = .ok entries ∧ entries.map Entry.draft = drafts := by
  induction drafts generalizing index with
  | nil => exact ⟨[], rfl, rfl⟩
  | cons draft drafts ih =>
    rw [entryFaults_cons, List.append_eq_nil_iff, List.map_eq_nil_iff] at h
    obtain ⟨entry, hentry, rfl⟩ := DraftEntry.check_of_complete h.1
    obtain ⟨entries, hentries, rfl⟩ := ih h.2
    refine ⟨entry :: entries, ?_, rfl⟩
    simp only [checkEntries, hentry, hentries, Except.map]

/-- The check of a manifest finds the first of its faults. -/
theorem check_of_fault {m : DraftManifest} {cause : ManifestCause} {others : List ManifestCause}
    (h : m.faults = cause :: others) (path : Path) : m.check path = .error cause := by
  -- The cases follow the order of the checks. Where one fails, the faults before it are none.
  obtain ⟨name, package, description, entries, bootstrap⟩ := m
  rcases name with _ | name
  · cases h
    rfl
  rcases package with _ | package
  · cases h
    rfl
  cases hid : Letter.isIdentifier package with
  | false =>
    simp only [faults, packageFaults, hid] at h
    cases h
    simp [check, hid]
  | true =>
    simp only [faults, packageFaults, hid] at h
    rcases description with _ | description
    · cases h
      simp [check, hid]
    rcases entries with _ | drafts
    · cases h
      simp [check, hid]
    simp [check, hid, checkEntries_of_fault h, Except.map]

end DraftManifest

/-- The manifest as it was written. -/
def Manifest.draft (m : Manifest) : DraftManifest where
  name := some m.name
  package := some m.package
  description := some m.description
  entries := some (m.entries.map Entry.draft)
  bootstrap := m.bootstrap

theorem DraftManifest.check_of_sound {m : DraftManifest} (h : m.faults = []) (path : Path) :
    ∃ manifest, m.check path = .ok manifest ∧ manifest.draft = m ∧ manifest.path = path := by
  obtain ⟨hname, ⟨package, hpackage, hid⟩, hdescription, drafts, hdrafts, hcomplete⟩ :=
    faults_eq_nil.mp h
  obtain ⟨name, hname⟩ := Option.ne_none_iff_exists'.mp hname
  obtain ⟨description, hdescription⟩ := Option.ne_none_iff_exists'.mp hdescription
  obtain ⟨entries, hentries, hkept⟩ :=
    checkEntries_of_complete (entryFaults_eq_nil.mpr hcomplete : entryFaults 0 drafts = [])
  refine ⟨⟨path, name, package, description, entries, m.bootstrap⟩, ?_, ?_, rfl⟩
  · simp [check, hname, hpackage, hid, hdescription, hdrafts, hentries, Except.map]
  · rw [Manifest.draft, ← hname, ← hpackage, ← hdescription, hkept, ← hdrafts]

namespace Manifest

/-- The text of an object with members of the right types says what its members say, wherever they
stand in it. -/
theorem parse_of_typed (path : Path) {ms : List (Option String × Value)} {source : String}
    (hsource : Json.Document (.object ms) source) (h : DraftManifest.Typed ms) :
    parse path source =
      ((DraftManifest.ofMembers ms).check path).mapError fun cause => ⟨path, cause⟩ := by
  cases hcheck : (DraftManifest.ofMembers ms).check path with
  | error cause => simp only [parse, h.reads.document hsource, hcheck, Except.mapError]
  | ok manifest => simp only [parse, h.reads.document hsource, hcheck, Except.mapError]

/-- Texts with the same members in another order are parsed alike. -/
theorem members_in_another_order_make_the_same_manifest (path : Path)
    {ms ms' : List (Option String × Value)} {source source' : String}
    (hsource : Json.Document (.object ms) source)
    (hsource' : Json.Document (.object ms') source') (h : DraftManifest.Typed ms)
    (hperm : ms.Perm ms') : parse path source' = parse path source := by
  rw [parse_of_typed path hsource h, parse_of_typed path hsource' (h.perm hperm),
    h.ofMembers_perm hperm]

/-- The entry of a keyword is the first that has it. -/
theorem entry?_eq_some {m : Manifest} {keyword : String} {entry : Entry} :
    m.entry? keyword = some entry ↔
      ∃ front back, m.entries = front ++ entry :: back ∧ entry.keyword = keyword ∧
        ∀ other ∈ front, other.keyword ≠ keyword := by
  unfold entry?
  rw [List.find?_eq_some_iff_append]
  constructor
  · rintro ⟨hkeyword, front, back, hentries, hfront⟩
    exact ⟨front, back, hentries, by simpa using hkeyword, by simpa using hfront⟩
  · rintro ⟨front, back, hentries, hkeyword, hfront⟩
    exact ⟨by simpa using hkeyword, front, back, hentries, by simpa using hfront⟩

/-- A manifest is accepted exactly when nothing that it must say is missing. Then it keeps what was
written, in order, and the entry of a keyword is the first that has it. Else the first of its faults
is told, in the order of the checks. -/
theorem parse_keeps_a_complete_manifest_or_tells_its_first_fault (path : Path)
    {ms : List (Option String × Value)} {source : String}
    (hsource : Json.Document (.object ms) source) (h : DraftManifest.Typed ms) :
    ((∃ manifest, parse path source = .ok manifest) ↔ (DraftManifest.ofMembers ms).Complete) ∧
      (∀ manifest, parse path source = .ok manifest →
        manifest.path = path ∧ manifest.draft = DraftManifest.ofMembers ms ∧
          ∀ keyword entry, manifest.entry? keyword = some entry ↔
            ∃ front back, manifest.entries = front ++ entry :: back ∧ entry.keyword = keyword ∧
              ∀ other ∈ front, other.keyword ≠ keyword) ∧
      (¬ (DraftManifest.ofMembers ms).Complete →
        ∃ cause others, (DraftManifest.ofMembers ms).faults = cause :: others ∧
          parse path source = .error ⟨path, cause⟩) := by
  rw [parse_of_typed path hsource h, ← DraftManifest.faults_eq_nil]
  cases hfaults : (DraftManifest.ofMembers ms).faults with
  | nil =>
    obtain ⟨manifest, hcheck, hkept, hpath⟩ := DraftManifest.check_of_sound hfaults path
    rw [hcheck]
    refine ⟨⟨fun _ => rfl, fun _ => ⟨manifest, rfl⟩⟩, ?_, fun hnot => absurd rfl hnot⟩
    intro other hother
    cases hother
    exact ⟨hpath, hkept, fun keyword entry => entry?_eq_some⟩
  | cons cause others =>
    rw [DraftManifest.check_of_fault hfaults path]
    refine ⟨⟨?_, fun hnil => by cases hnil⟩, ?_, fun _ => ⟨cause, others, rfl, rfl⟩⟩
    · rintro ⟨manifest, hmanifest⟩
      cases hmanifest
    · intro manifest hmanifest
      cases hmanifest

end Manifest

/-! ## A manifest in another order -/

namespace Json

/-- Characters that stand for themselves in a string. -/
def Plain (cs : List Char) : Prop :=
  cs.all (fun c => c != '"' && c != '\\' && decide (0x20 ≤ c.toNat)) = true

instance (cs : List Char) : Decidable (Plain cs) := inferInstanceAs (Decidable (_ = true))

theorem blanks_nil : Blanks [] := by simp [Blanks]

theorem Plain.spells {cs : List Char} (h : Plain cs) : Spells cs (some cs) := by
  induction cs with
  | nil => exact .nil
  | cons c cs ih =>
    simp only [Plain, List.all_cons, Bool.and_eq_true, bne_iff_ne, decide_eq_true_eq] at h
    obtain ⟨⟨⟨hquote, hslash⟩, hplain⟩, hrest⟩ := h
    exact .plain hquote hslash (Nat.not_lt.mpr hplain) (ih hrest)

/-- A text that needs no escape is written as it stands. -/
theorem plain (s : String) (h : Plain s.toList := by decide) :
    Spells s.toList (some s.toList) := h.spells

theorem Spells.value {spelled : List Char} {s : String} (h : Spells spelled (some s.toList)) :
    Writes (.value (.string (some s))) ('"' :: (spelled ++ ['"'])) := by
  simpa using Writes.string blanks_nil h

theorem Spells.member {spelled : List Char} {key : String} {v : Value}
    {ms : List (Option String × Value)} {cs cs' : List Char} (h : Spells spelled (some key.toList))
    (hcs : Writes (.value v) cs) (hcs' : Writes (.members ms) cs') :
    Writes (.members ((some key, v) :: ms))
      ('"' :: (spelled ++ '"' :: ':' :: (cs ++ ',' :: cs'))) := by
  simpa using Writes.member blanks_nil h blanks_nil hcs blanks_nil hcs'

theorem Spells.lastMember {spelled : List Char} {key : String} {v : Value} {cs : List Char}
    (h : Spells spelled (some key.toList)) (hcs : Writes (.value v) cs) :
    Writes (.members [(some key, v)]) ('"' :: (spelled ++ '"' :: ':' :: cs)) := by
  simpa using Writes.lastMember blanks_nil h blanks_nil hcs

end Json

open Json (Writes Document blanks_nil plain)

/-- An entry with a member that nobody knows, in which a known name and half of a pair of surrogates
stand. -/
def circleEntry : Value := .object [
  (some "file", .string (some "c.mpy")),
  (some "tags", .array [.object [(some "name", .number)], .string none]),
  (some "keyword", .string (some "round")),
  (some "name", .string (some "Circle")),
  (some "description", .string (some ""))]

/-- An entry in its array form, with the same keyword. -/
def ringEntry (file : Value) : Value :=
  .array [.string (some "Ring"), .string (some "round"), .string (some ""), file]

/-- The entries come first and the name comes last. -/
def shuffledMembers (description file : Value) : List (Option String × Value) := [
  (some "macros", .array [circleEntry, ringEntry file]),
  (some "package", .string (some "shapes")),
  (some "description", description),
  (some "name", .string (some "Shapes"))]

def circleText : String :=
  "\x7b\"file\":\"c.mpy\",\"tags\":[\x7b\"name\":-7\x7d,\"\\ud800\"]," ++
    "\"keyword\":\"round\",\"name\":\"Circle\",\"description\":\"\"\x7d"

def shuffledText (description file : String) : String :=
  "\x7b\"macros\":[" ++ circleText ++ ",[\"Ring\",\"round\",\"\"," ++ file ++
    "]],\"\\u0070ackage\":\"shapes\",\"description\":" ++ description ++
    ",\"name\":\"Shapes\"\x7d\n"

theorem writes_circle : Writes (.value circleEntry) circleText.toList := by
  have hdigits : Json.Digits ['7'] := ⟨by simp, List.forall_mem_singleton.mpr rfl⟩
  have hnumber : Json.Unsigned ['7'] := .parts (.digits (by decide) hdigits) .none .none
  have hlone : Json.Spells ['\\', 'u', 'd', '8', '0', '0'] none :=
    .skipped (show Json.hexUnit? 'd' '8' '0' '0' = some 0xd800 by decide) .nil
  have htags : Writes (.value (.array [.object [(some "name", .number)], .string none])) _ :=
    .array blanks_nil
      (.item (.object blanks_nil ((plain "name").lastMember (.negative blanks_nil hnumber))
        blanks_nil) blanks_nil (.lastItem (.string blanks_nil hlone))) blanks_nil
  have hcircle : Writes (.value circleEntry) _ :=
    .object blanks_nil ((plain "file").member (plain "c.mpy").value
      ((plain "tags").member htags
        ((plain "keyword").member (plain "round").value
          ((plain "name").member (plain "Circle").value
            ((plain "description").lastMember (plain "").value)))))
      blanks_nil
  -- The text that the pieces make is long, so it is left to the kernel to compare.
  refine Eq.mpr (congrArg (Writes _) ?_) hcircle
  decide

theorem writes_ring {file : Value} {cs : List Char} (h : Writes (.value file) cs) :
    Writes (.value (ringEntry file)) ("[\"Ring\",\"round\",\"\",".toList ++ cs ++ [']']) := by
  have hring : Writes (.value (ringEntry file)) _ :=
    .array blanks_nil (.item (plain "Ring").value blanks_nil
      (.item (plain "round").value blanks_nil
        (.item (plain "").value blanks_nil (.lastItem h)))) blanks_nil
  simpa using hring

theorem document_shuffled {description file : Value} {d f : String}
    (hd : Writes (.value description) d.toList) (hf : Writes (.value file) f.toList) :
    Document (.object (shuffledMembers description file)) (shuffledText d f) := by
  have hpackage : Json.Spells "\\u0070ackage".toList (some "package".toList) := by
    have hletter : Json.hexUnit? '0' '0' '7' '0' = some 0x70 := by decide
    simpa using Json.Spells.unit hletter (by decide) (by decide) (plain "ackage")
  have hmembers : Writes (.members (shuffledMembers description file)) _ :=
    (plain "macros").member
      (.array blanks_nil (.item writes_circle blanks_nil (.lastItem (writes_ring hf))) blanks_nil)
      (hpackage.member (plain "shapes").value
        ((plain "description").member hd ((plain "name").lastMember (plain "Shapes").value)))
  have hblanks : Json.Blanks ['\n'] := by simp [Json.Blanks, Json.isBlank]
  refine ⟨_, ['\n'], .object blanks_nil hmembers blanks_nil, hblanks, ?_⟩
  unfold shuffledText
  simp only [String.toList_append, List.append_assoc, List.cons_append, List.nil_append]
  rfl

theorem textual_string (s : String) : (Value.string (some s)).Textual := Or.inr ⟨s, rfl⟩

theorem typed_circle : DraftEntry.Typed circleEntry := by
  refine .object ⟨by simp, by decide⟩ fun key hkey v hv => ?_
  simp only [List.mem_cons, List.not_mem_nil, or_false, Prod.mk.injEq, Option.some.injEq] at hv
  rcases hv with ⟨-, rfl⟩ | ⟨rfl, -⟩ | ⟨-, rfl⟩ | ⟨-, rfl⟩ | ⟨-, rfl⟩
  case inr.inl => simp [DraftEntry.names] at hkey
  all_goals exact textual_string _

theorem typed_shuffled {description file : Value} (hd : description.Textual)
    (hf : file.Textual) : DraftManifest.Typed (shuffledMembers description file) := by
  have hring : DraftEntry.Typed (ringEntry file) :=
    .array (textual_string _) (textual_string _) (textual_string _) hf
  have hnames : (shuffledMembers description file).map Prod.fst =
      [some "macros", some "package", some "description", some "name"] := rfl
  refine ⟨⟨by simp [shuffledMembers], by rw [hnames]; decide⟩, ?_, ?_, by simp [shuffledMembers]⟩
  · simp [shuffledMembers, hd, textual_string]
  · simp [shuffledMembers, typed_circle, hring]

/-- With a description and a file missing, then with the file alone, then with nothing missing. -/
theorem the_shuffled_manifest_tells_its_first_fault :
    Manifest.parse ⟨"macros.json"⟩ (shuffledText "null" "null") =
        .error ⟨⟨"macros.json"⟩, .missingDescription⟩ ∧
      Manifest.parse ⟨"macros.json"⟩ (shuffledText "\"\"" "null") =
        .error ⟨⟨"macros.json"⟩, .entryMissing 1 .file⟩ ∧
      ∃ manifest, Manifest.parse ⟨"macros.json"⟩ (shuffledText "\"\"" "\"\"") = .ok manifest ∧
        (manifest.entry? "round").map Entry.name = some "Circle" := by
  have hnull : Writes (.value .null) "null".toList := .null blanks_nil
  have hempty : Writes (.value (.string (some ""))) "\"\"".toList :=
    Json.Spells.value (s := "") .nil
  have hnone : Value.null.Textual := Or.inl rfl
  have htext := textual_string ""
  have hlaw {description file : Value} {d f : String} (hd : Writes (.value description) d.toList)
      (hf : Writes (.value file) f.toList) (hd' : description.Textual) (hf' : file.Textual) :=
    Manifest.parse_keeps_a_complete_manifest_or_tells_its_first_fault ⟨"macros.json"⟩
      (document_shuffled hd hf) (typed_shuffled hd' hf')
  refine ⟨?_, ?_, ?_⟩
  · obtain ⟨cause, others, hcause, htold⟩ := (hlaw hnull hnull hnone hnone).2.2 fun hcomplete =>
      hcomplete.description rfl
    cases hcause
    exact htold
  · obtain ⟨cause, others, hcause, htold⟩ := (hlaw hempty hnull htext hnone).2.2 fun hcomplete => by
      obtain ⟨drafts, hdrafts, hall⟩ := hcomplete.entries
      cases hdrafts
      exact (hall (DraftEntry.ofValue (ringEntry .null)) (by simp)).file rfl
    cases hcause
    exact htold
  · obtain ⟨haccepted, hkept, -⟩ := hlaw hempty hempty htext htext
    obtain ⟨manifest, hmanifest⟩ :=
      haccepted.mpr (DraftManifest.faults_eq_nil.mp (by decide))
    obtain ⟨-, hdraft, hentry⟩ := hkept manifest hmanifest
    obtain ⟨first, others, hentries, hfirst, -⟩ :=
      List.map_eq_cons_iff.mp (Option.some.inj (congrArg DraftManifest.entries hdraft))
    obtain ⟨name, keyword, description, file⟩ := first
    cases hfirst
    refine ⟨manifest, hmanifest, ?_⟩
    rw [(hentry "round" _).mpr ⟨[], others, hentries, rfl, by simp⟩]
    rfl

end SourceMacros
