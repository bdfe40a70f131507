-- What readers make of a text. A reader that reads an item reads an array of such items, and a
-- record is read from its members in whatever order they stand, each field from its own value.
import SourceMacros.Proofs.JsonTexts

namespace SourceMacros

namespace Json

variable {α σ : Type} {v : Value} {vs : List Value} {b cs : List Char} {first : Bool}
  {lead : List Char}

/-- The reader takes every text of the value, and nothing behind it. -/
def Reads (read : Reader α) (v : Value) (a : α) : Prop :=
  ∀ cs rest, Writes (.value v) cs → Stops rest → read (cs ++ rest) = .ok (a, rest)

/-! ## Strings and nulls -/

theorem Writes.string_eq {s : String} (h : Writes (.value (.string (some s))) cs) :
    ∃ b inner text, Blanks b ∧ Spells inner (some text) ∧ s = String.ofList text ∧
      cs = b ++ '"' :: (inner ++ ['"']) := by
  generalize hpart : Part.value (.string (some s)) = part at h
  cases h with
  | @string b inner spelled hb hspells =>
    simp only [Part.value.injEq, Value.string.injEq] at hpart
    obtain ⟨text, rfl, rfl⟩ := Option.map_eq_some_iff.mp hpart.symm
    exact ⟨b, inner, text, hb, hspells, rfl, rfl⟩
  | _ => simp at hpart

theorem reads_text (s : String) : Reads text (.string (some s)) s := by
  intro cs rest hcs _
  obtain ⟨b, inner, spelled, hb, hspells, rfl, rfl⟩ := hcs.string_eq
  rw [List.append_assoc, List.cons_append, List.append_assoc]
  unfold text
  rw [skipBlanks_to hb (by decide)]
  change (stringTail (inner ++ '"' :: rest)).map _ = _
  rw [stringTail_of_spells hspells rfl]
  rfl

theorem reads_nullable_null (read : Reader α) : Reads (nullable read) .null none := by
  intro cs rest hcs _
  cases hcs with
  | null hb =>
    rw [List.append_assoc]
    unfold nullable
    rw [skipBlanks_blanks hb]
    rfl

/-- What is not `null` starts with another letter, so it is left to the reader. -/
theorem Reads.nullable {read : Reader α} {a : α} (h : Reads read v a) (hv : v ≠ .null) :
    Reads (nullable read) v (some a) := by
  intro cs rest hcs hrest
  obtain ⟨c, core, hstart, -, hn, hcore⟩ := hcs.start
  unfold Json.nullable
  rw [hstart.skipBlanks_append]
  split
  · next heq => exact absurd (hn (List.cons.inj heq).1) hv
  · rw [← List.cons_append, h (c :: core) rest hcore hrest]
    rfl

/-! ## Arrays -/

/-- What stands before an item or a member: nothing if it is the first one, else a comma. -/
inductive Lead : Bool → List Char → Prop
  | first : Lead true []
  | later {b : List Char} : Blanks b → Lead false (b ++ [','])

theorem nextElement_comma (hb : Blanks b) (cs : List Char) :
    nextElement false (b ++ ',' :: cs) =
      match skipBlanks cs with
      | [] => .error .truncated
      | ']' :: _ => .error .malformed
      | rest => .ok (some rest) := by
  unfold nextElement
  rw [skipBlanks_to hb (by decide)]
  rfl

theorem nextElement_lead {core : List Char} {c : Char} (hlead : Lead first lead)
    (hstart : StartsWith cs c core) (hc : c ≠ ']') (rest : List Char) :
    nextElement first (lead ++ (cs ++ rest)) = .ok (some (c :: (core ++ rest))) := by
  cases hlead with
  | first =>
    unfold nextElement
    rw [List.nil_append, hstart.skipBlanks_append]
    split
    · next heq => cases heq
    · next heq => exact absurd (List.cons.inj heq).1 hc
    · next heq =>
      cases heq
      rfl
  | later hb =>
    rw [List.append_assoc, List.singleton_append, nextElement_comma hb, hstart.skipBlanks_append]
    split
    · next heq => cases heq
    · next heq => exact absurd (List.cons.inj heq).1 hc
    · rfl

theorem nextElement_end (hb : Blanks b) (rest : List Char) :
    nextElement first (b ++ ']' :: rest) = .ok none := by
  unfold nextElement
  rw [skipBlanks_to hb (by decide)]
  rfl

theorem endArray_end (hb : Blanks b) (rest : List Char) :
    endArray (b ++ ']' :: rest) = .ok rest := by
  unfold endArray
  rw [skipBlanks_to hb (by decide)]
  rfl

/-- An item is handed to its reader, without the blanks before it. -/
theorem Reads.after_lead {read : Reader α} {a : α} (h : Reads read v a) (hlead : Lead first lead)
    (hcs : Writes (.value v) cs) {rest : List Char} (hrest : Stops rest) :
    ∃ item, nextElement first (lead ++ (cs ++ rest)) = .ok (some item) ∧
      read item = .ok (a, rest) := by
  obtain ⟨c, core, hstart, hc, -, hcore⟩ := hcs.start
  exact ⟨_, nextElement_lead hlead hstart hc rest, h (c :: core) rest hcore hrest⟩

theorem elements_end (read : Reader α) (hb : Blanks b) (fuel : Nat) (rest : List Char) :
    elements read (fuel + 1) first (b ++ ']' :: rest) = .ok ([], rest) := by
  rw [elements, nextElement_end hb]
  simp only [bind, Except.bind, endArray_end hb, pure, Except.pure]

theorem elements_of_writes {read : Reader α} {as : List α}
    (h : List.Forall₂ (Reads read) vs as) (hcs : Writes (.items vs) cs) (hlead : Lead first lead)
    (hb : Blanks b) (fuel : Nat) (rest : List Char)
    (hfuel : (cs ++ (b ++ ']' :: rest)).length ≤ fuel) :
    elements read (fuel + 1) first (lead ++ (cs ++ (b ++ ']' :: rest))) = .ok (as, rest) := by
  induction h generalizing cs first lead fuel with
  | nil => cases hcs
  | @cons v a vs as hread hreads ih =>
    simp only [List.length_append, List.length_cons] at hfuel
    obtain ⟨fuel, rfl⟩ := Nat.exists_eq_add_one_of_ne_zero (show fuel ≠ 0 by omega)
    cases hcs with
    | lastItem hcs =>
      cases hreads
      obtain ⟨item, hnext, hitem⟩ := hread.after_lead hlead hcs
        (.of_blanks hb (Or.inr (Or.inl rfl)) rest)
      rw [elements, hnext]
      simp only [bind, Except.bind, hitem, elements_end read hb, pure, Except.pure]
    | @item _ _ b' cs cs' hcs hb' hcs' =>
      obtain ⟨item, hnext, hitem⟩ := hread.after_lead hlead hcs
        (.of_blanks hb' (Or.inl rfl) (cs' ++ (b ++ ']' :: rest)))
      simp only [List.length_append, List.length_cons] at hfuel
      have hrest := ih hcs' (.later hb') fuel (by simp; omega)
      rw [List.append_assoc, List.singleton_append] at hrest
      simp only [List.append_assoc, List.cons_append]
      rw [elements, hnext]
      simp only [bind, Except.bind, hitem, hrest, pure, Except.pure]

theorem Reads.array {read : Reader α} {as : List α} (h : List.Forall₂ (Reads read) vs as) :
    Reads (array read) (.array vs) as := by
  intro cs rest hcs _
  unfold Json.array
  cases hcs with
  | emptyArray hb hb' =>
    cases h
    simp only [List.append_assoc, List.cons_append, List.nil_append]
    rw [skipBlanks_to hb (by decide)]
    exact elements_end read hb' _ rest
  | array hb hcs hb' =>
    simp only [List.append_assoc, List.cons_append, List.nil_append]
    rw [skipBlanks_to hb (by decide)]
    exact elements_of_writes h hcs .first hb' _ rest (Nat.le_refl _)

/-! ## Objects -/

theorem nextKey_comma (hb : Blanks b) (cs : List Char) :
    nextKey false (b ++ ',' :: cs) =
      match skipBlanks cs with
      | [] => .error .truncated
      | '"' :: rest => (stringTail rest).bind fun p => .ok (some (String.ofList p.1, p.2))
      | _ => .error .malformed := by
  unfold nextKey
  rw [skipBlanks_to hb (by decide)]
  rfl

theorem nextKey_lead {key : List Char} {name : List Char} (hlead : Lead first lead)
    (hb : Blanks b) (hkey : Spells key (some name)) (rest : List Char) :
    nextKey first (lead ++ (b ++ '"' :: (key ++ '"' :: rest))) =
      .ok (some (String.ofList name, rest)) := by
  have hstring := stringTail_of_spells hkey rfl rest
  cases hlead with
  | first =>
    unfold nextKey
    rw [List.nil_append, skipBlanks_to hb (by decide)]
    change (stringTail (key ++ '"' :: rest)).bind _ = _
    rw [hstring]
    rfl
  | later hb' =>
    rw [List.append_assoc, List.singleton_append, nextKey_comma hb', skipBlanks_to hb (by decide)]
    change (stringTail (key ++ '"' :: rest)).bind _ = _
    rw [hstring]
    rfl

theorem members_end (member : String → σ → Reader σ) (state : σ) (hb : Blanks b) (fuel : Nat)
    (rest : List Char) :
    members member (fuel + 1) first state (b ++ '}' :: rest) = .ok (state, rest) := by
  have hnext : nextKey first (b ++ '}' :: rest) = .ok none := by
    unfold nextKey
    rw [skipBlanks_to hb (by decide)]
    rfl
  rw [members, hnext]
  simp only [bind, Except.bind, pure, Except.pure, skipBlanks_to hb (show isBlank '}' = false by
    decide), List.drop_succ_cons, List.drop_zero]

/-- Behind its name, the member takes the state on. -/
def Takes (member : String → σ → Reader σ) (key : String) (v : Value) (s s' : σ) : Prop :=
  ∀ b cs rest, Blanks b → Writes (.value v) cs → Stops rest →
    member key s (b ++ ':' :: (cs ++ rest)) = .ok (s', rest)

/-- One after the other, the members take the state on. -/
inductive Gathers (member : String → σ → Reader σ) : σ → List (Option String × Value) → σ → Prop
  | nil {s : σ} : Gathers member s [] s
  | cons {key : String} {v : Value} {ms : List (Option String × Value)} {s s' s'' : σ} :
      Takes member key v s s' → Gathers member s' ms s'' →
      Gathers member s ((some key, v) :: ms) s''

/-- The first of several members, and what stands behind it. -/
theorem Writes.members_cons {key : String} {ms : List (Option String × Value)}
    (h : Writes (.members ((some key, v) :: ms)) cs) :
    ∃ b name inner b' item tail, Blanks b ∧ Spells inner (some name) ∧ key = String.ofList name ∧
      Blanks b' ∧ Writes (.value v) item ∧
      cs = b ++ '"' :: (inner ++ '"' :: (b' ++ ':' :: (item ++ tail))) ∧
      (ms = [] ∧ tail = [] ∨
        ∃ b'' cs', Blanks b'' ∧ Writes (.members ms) cs' ∧ tail = b'' ++ ',' :: cs') := by
  generalize hpart : Part.members ((some key, v) :: ms) = part at h
  cases h with
  | @lastMember spelled v' b b' inner item hb hspells hb' hitem =>
    simp only [Part.members.injEq, List.cons.injEq, Prod.mk.injEq] at hpart
    obtain ⟨⟨hname, rfl⟩, rfl⟩ := hpart
    obtain ⟨name, rfl, rfl⟩ := Option.map_eq_some_iff.mp hname.symm
    exact ⟨b, name, inner, b', item, [], hb, hspells, rfl, hb', hitem, by rw [List.append_nil],
      Or.inl ⟨rfl, rfl⟩⟩
  | @member spelled v' ms' b b' b'' inner item cs' hb hspells hb' hitem hb'' hcs' =>
    simp only [Part.members.injEq, List.cons.injEq, Prod.mk.injEq] at hpart
    obtain ⟨⟨hname, rfl⟩, rfl⟩ := hpart
    obtain ⟨name, rfl, rfl⟩ := Option.map_eq_some_iff.mp hname.symm
    exact ⟨b, name, inner, b', item, _, hb, hspells, rfl, hb', hitem, rfl,
      Or.inr ⟨b'', cs', hb'', hcs', rfl⟩⟩
  | _ => cases hpart

theorem members_of_writes {member : String → σ → Reader σ} {ms : List (Option String × Value)}
    {s s' : σ} (h : Gathers member s ms s') (hcs : Writes (.members ms) cs)
    (hlead : Lead first lead) (hb : Blanks b) (fuel : Nat) (rest : List Char)
    (hfuel : (cs ++ (b ++ '}' :: rest)).length ≤ fuel) :
    members member (fuel + 1) first s (lead ++ (cs ++ (b ++ '}' :: rest))) = .ok (s', rest) := by
  induction h generalizing cs first lead fuel with
  | nil => cases hcs
  | @cons key v ms s s' s'' htakes hgathers ih =>
    obtain ⟨b₀, name, inner, b', item, tail, hb₀, hspells, rfl, hb', hitem, rfl, htail⟩ :=
      hcs.members_cons
    simp only [List.length_append, List.length_cons] at hfuel
    obtain ⟨fuel, rfl⟩ := Nat.exists_eq_add_one_of_ne_zero (show fuel ≠ 0 by omega)
    simp only [List.append_assoc, List.cons_append]
    rw [members, nextKey_lead hlead hb₀ hspells]
    rcases htail with ⟨rfl, rfl⟩ | ⟨b'', cs', hb'', hcs', rfl⟩
    · cases hgathers
      have hmember := htakes b' item (b ++ '}' :: rest) hb' hitem (.of_blanks hb (by simp) rest)
      simp only [List.nil_append, bind, Except.bind, hmember, members_end member _ hb]
    · have hmember := htakes b' item (b'' ++ ',' :: (cs' ++ (b ++ '}' :: rest))) hb' hitem
        (.of_blanks hb'' (Or.inl rfl) _)
      have hrest := ih hcs' (.later hb'') fuel (by simp at hfuel ⊢; omega)
      rw [List.append_assoc, List.singleton_append] at hrest
      simp only [List.append_assoc, List.cons_append, bind, Except.bind, hmember, hrest]

/-! ## Records -/

theorem Reads.field {read : Reader α} {a : α} (h : Reads read v a) (name : String)
    (store : σ → α → σ) (optional : Bool) (record : σ) :
    Reads ((Field.of name read store optional).read record) v (store record a) := by
  intro cs rest hcs hrest
  simp only [Field.of, h cs rest hcs hrest, Except.map]

/-- A member has a name that no field has, and changes nothing, or it is the first with the name of
a field, and its value is read into that. -/
def Adds (fields : List (Field σ)) (ofMembers : List (Option String × Value) → σ)
    (front : List (Option String × Value)) (key : String) (v : Value) : Prop :=
  (fields.find? (·.name == key) = none ∧
    ofMembers (front ++ [(some key, v)]) = ofMembers front) ∨
  ∃ field, fields.find? (·.name == key) = some field ∧ some key ∉ front.map Prod.fst ∧
    Reads (field.read (ofMembers front)) v (ofMembers (front ++ [(some key, v)]))

theorem afterColon_colon (hb : Blanks b) (cs : List Char) :
    afterColon (b ++ ':' :: cs) = .ok cs := by
  unfold afterColon
  rw [skipBlanks_to hb (by decide)]
  rfl

/-- The names of the fields met so far are among the names of the members. -/
theorem gathers_recordMember {fields : List (Field σ)}
    {ofMembers : List (Option String × Value) → σ} {ms : List (Option String × Value)}
    (hadds : ∀ front m back, ms = front ++ m :: back →
      ∃ key, m.1 = some key ∧ Adds fields ofMembers front key m.2)
    {front back : List (Option String × Value)} (hms : ms = front ++ back) (seen : List String)
    (hseen : ∀ key ∈ seen, some key ∈ front.map Prod.fst) :
    ∃ seen', Gathers (recordMember fields) (seen, ofMembers front) back
      (seen', ofMembers ms) := by
  induction back generalizing front seen with
  | nil =>
    rw [List.append_nil] at hms
    subst hms
    exact ⟨seen, .nil⟩
  | cons m back ih =>
    obtain ⟨key, hkey, hadd⟩ := hadds front m back hms
    obtain ⟨_, v⟩ := m
    cases hkey
    have hmore : ms = (front ++ [(some key, v)]) ++ back := by rw [hms, List.append_cons]
    rcases hadd with ⟨hunknown, hsame⟩ | ⟨field, hfield, hnew, hread⟩
    · obtain ⟨seen', hgathers⟩ := ih hmore seen fun key hkey => by simp [hseen key hkey]
      refine ⟨seen', .cons ?_ (hsame ▸ hgathers)⟩
      intro b cs rest hb hcs hrest
      simp only [recordMember, hunknown, afterColon_colon hb, skipValue_of_writes hcs hrest, bind,
        Except.bind, pure, Except.pure]
    · have hunseen : seen.contains key = false := by
        rw [List.contains_eq_mem, decide_eq_false_iff_not]
        exact fun hkey => hnew (hseen key hkey)
      obtain ⟨seen', hgathers⟩ := ih hmore (key :: seen) fun other hother => by
        rcases List.mem_cons.mp hother with rfl | hother
        · simp
        · simp [hseen other hother]
      refine ⟨seen', .cons ?_ hgathers⟩
      intro b cs rest hb hcs hrest
      simp only [recordMember, hfield, hunseen, Bool.false_eq_true, if_false, afterColon_colon hb,
        bind, Except.bind, hread cs rest hcs hrest, pure, Except.pure]

/-- An object is read member by member. -/
theorem reads_record {fields : List (Field σ)} {ofMembers : List (Option String × Value) → σ}
    {ms : List (Option String × Value)}
    (hadds : ∀ front m back, ms = front ++ m :: back →
      ∃ key, m.1 = some key ∧ Adds fields ofMembers front key m.2) :
    Reads (record fields (ofMembers [])) (.object ms) (ofMembers ms) := by
  intro cs rest hcs _
  obtain ⟨seen, hgathers⟩ := gathers_recordMember hadds (List.nil_append ms).symm [] (by simp)
  unfold record
  cases hcs with
  | emptyObject hb hb' =>
    cases hgathers
    simp only [List.append_assoc, List.cons_append, List.nil_append]
    rw [skipBlanks_to hb (by decide)]
    simp only [members_end _ _ hb', bind, Except.bind, pure, Except.pure]
  | object hb hcs hb' =>
    simp only [List.append_assoc, List.cons_append, List.nil_append]
    rw [skipBlanks_to hb (by decide)]
    have hmembers := members_of_writes hgathers hcs .first hb' _ rest (Nat.le_refl _)
    rw [List.nil_append] at hmembers
    simp only [hmembers, bind, Except.bind, pure, Except.pure]

/-- One after the other, the values are read into the fields. -/
inductive Fills : List (Field σ) → σ → List Value → σ → Prop
  | nil {s : σ} : Fills [] s [] s
  | cons {field : Field σ} {fields : List (Field σ)} {v : Value} {vs : List Value} {s s' s'' : σ} :
      Reads (field.read s) v s' → Fills fields s' vs s'' →
      Fills (field :: fields) s (v :: vs) s''

theorem recordElements_of_writes {fields : List (Field σ)} {s s' : σ}
    (h : Fills fields s vs s') (hcs : Writes (.items vs) cs) (hlead : Lead first lead)
    (hb : Blanks b) (rest : List Char) :
    recordElements fields first s (lead ++ (cs ++ (b ++ ']' :: rest))) = .ok (s', rest) := by
  induction h generalizing cs first lead with
  | nil => cases hcs
  | cons hread hfills ih =>
    cases hcs with
    | lastItem hcs =>
      cases hfills
      obtain ⟨item, hnext, hitem⟩ := hread.after_lead hlead hcs
        (.of_blanks hb (Or.inr (Or.inl rfl)) rest)
      simp only [recordElements, hnext, bind, Except.bind, hitem, endArray_end hb, pure,
        Except.pure]
    | @item _ _ b' cs cs' hcs hb' hcs' =>
      obtain ⟨item, hnext, hitem⟩ := hread.after_lead hlead hcs
        (.of_blanks hb' (Or.inl rfl) (cs' ++ (b ++ ']' :: rest)))
      have hrest := ih hcs' (.later hb')
      rw [List.append_assoc, List.singleton_append] at hrest
      simp only [List.append_assoc, List.cons_append, recordElements, hnext, bind, Except.bind,
        hitem, hrest]

/-- An array is read field by field. -/
theorem reads_record_array {fields : List (Field σ)} {s s' : σ} (h : Fills fields s vs s')
    (hvs : vs ≠ []) : Reads (record fields s) (.array vs) s' := by
  intro cs rest hcs _
  unfold record
  cases hcs with
  | emptyArray => exact absurd rfl hvs
  | array hb hcs hb' =>
    simp only [List.append_assoc, List.cons_append, List.nil_append]
    rw [skipBlanks_to hb (by decide)]
    exact recordElements_of_writes h hcs .first hb' rest

/-! ## Documents -/

/-- The text writes a value, and nothing else but blanks. -/
def Document (v : Value) (source : String) : Prop :=
  ∃ cs b, Writes (.value v) cs ∧ Blanks b ∧ source.toList = cs ++ b

theorem Reads.document {read : Reader α} {a : α} {source : String} (h : Reads read v a)
    (hsource : Document v source) : document read source = .ok a := by
  obtain ⟨cs, b, hcs, hb, htext⟩ := hsource
  have hstops : Stops b := fun c hc => Or.inl (hb c (List.mem_of_mem_head? hc))
  have hend : skipBlanks b = [] := List.dropWhile_eq_nil_iff.mpr hb
  unfold Json.document
  rw [htext]
  simp only [h cs b hcs hstops, hend, bind, Except.bind, pure, Except.pure]

end Json

end SourceMacros
