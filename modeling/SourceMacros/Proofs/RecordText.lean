-- Digests as text. Each string is read back as it was written, whatever characters it has, and so
-- is a whole table. Digests in the order of their paths are the digests of their own table.
import SourceMacros.HashRecord

namespace SourceMacros

namespace Json

/-! ## Strings -/

theorem hexDigit?_digitChar (n : Nat) (h : n < 16) : hexDigit? n.digitChar = some n := by
  decide +revert

/-- A control character is read back from its four digits. -/
theorem hexUnit?_control {c : Char} (h : c.toNat < 0x20) :
    hexUnit? '0' '0' (Nat.digitChar (c.toNat / 16)) (Nat.digitChar (c.toNat % 16)) =
      some c.toNat := by
  have hzero : hexDigit? '0' = some 0 := by decide
  have hhigh := hexDigit?_digitChar (c.toNat / 16) (by omega)
  have hlow := hexDigit?_digitChar (c.toNat % 16) (by omega)
  simp only [hexUnit?, hzero, hhigh, hlow, Option.bind_eq_bind, Option.bind_some, Option.pure_def,
    Option.some.injEq]
  omega

/-- A character that needs no escape is read as it stands. -/
theorem stringTail_plain {c : Char} (hquote : c ≠ '"') (hslash : c ≠ '\\') (h : ¬ c.toNat < 0x20)
    (rest : List Char) : stringTail (c :: rest) = prepend c (stringTail rest) := by
  rw [stringTail.eq_def]
  split
  · next heq => cases heq
  · next heq => exact absurd (List.cons.inj heq).1 hquote
  · next heq => exact absurd (List.cons.inj heq).1 hslash
  · next heq => exact absurd (List.cons.inj heq).1 hslash
  · next heq => exact absurd (List.cons.inj heq).1 hslash
  · next heq => exact absurd (List.cons.inj heq).1 hslash
  · next heq =>
    cases heq
    rw [if_neg h]

/-- Each character is read back from what it is written as. -/
theorem stringTail_escape (c : Char) (rest : List Char) :
    stringTail (Digests.escape c ++ rest) = prepend c (stringTail rest) := by
  unfold Digests.escape
  split
  case h_8 hquote hslash _ _ _ _ _ =>
    split
    · next hcontrol =>
      have hlow : isLowSurrogate c.toNat = false := by
        simp only [isLowSurrogate, Bool.and_eq_false_iff, decide_eq_false_iff_not]
        omega
      have hhigh : isHighSurrogate c.toNat = false := by
        simp only [isHighSurrogate, Bool.and_eq_false_iff, decide_eq_false_iff_not]
        omega
      simp only [List.cons_append, List.nil_append]
      rw [stringTail.eq_def]
      simp only [hexUnit?_control hcontrol, hlow, hhigh, Bool.false_eq_true, if_false,
        Char.ofNat_toNat]
    · next hplain => exact stringTail_plain hquote hslash hplain rest
  all_goals rfl

/-- A string is read back up to its closing quote. -/
theorem stringTail_flatMap_escape (cs rest : List Char) :
    stringTail (cs.flatMap Digests.escape ++ '"' :: rest) = .ok (cs, rest) := by
  induction cs with
  | nil => rfl
  | cons c cs ih =>
    rw [List.flatMap_cons, List.append_assoc, stringTail_escape, ih]
    rfl

end Json

namespace Digests

open Json

/-! ## Tables -/

/-- The characters of a quoted string, with what comes behind it. -/
theorem toList_quote_append (text : String) (rest : List Char) :
    (quote text).toList ++ rest = '"' :: (text.toList.flatMap escape ++ '"' :: rest) := by
  simp [quote]

/-- The characters of one line of a table. -/
def line (entry : String × String) : List Char :=
  "  ".toList ++ (quote entry.1).toList ++ ": ".toList ++ (quote entry.2).toList

/-- The characters of a table from a line break on. -/
def listing : Bool → Digests → List Char
  | _, [] => ['\n', '}']
  | true, entry :: rest => '\n' :: line entry ++ listing false rest
  | false, entry :: rest => ',' :: '\n' :: line entry ++ listing false rest

theorem listing_true_cons (entry : String × String) (d : Digests) :
    listing true (entry :: d) = '\n' :: line entry ++ listing false d := rfl

theorem listing_false_cons (entry : String × String) (d : Digests) :
    listing false (entry :: d) = ',' :: '\n' :: line entry ++ listing false d := rfl

theorem listing_false (d : Digests) :
    listing false d = d.flatMap (fun entry => ',' :: '\n' :: line entry) ++ ['\n', '}'] := by
  induction d with
  | nil => rfl
  | cons entry rest ih =>
    rw [listing_false_cons, ih, List.flatMap_cons, List.append_assoc]

theorem intercalate_cons (sep first : List Char) (others : List (List Char)) :
    sep.intercalate (first :: others) = first ++ others.flatMap (sep ++ ·) := by
  induction others generalizing first with
  | nil => simp [List.intercalate]
  | cons next others ih =>
    simp only [List.intercalate] at ih ⊢
    rw [List.intersperse_cons_cons, List.flatten_cons, List.flatten_cons, ih, List.flatMap_cons]
    simp

/-- The text of a table that is not empty. -/
theorem toList_render {d : Digests} (h : d ≠ []) : d.render.toList = '{' :: listing true d := by
  cases d with
  | nil => exact absurd rfl h
  | cons entry rest =>
    simp only [render, List.isEmpty_cons, Bool.false_eq_true, if_false, String.toList_append,
      String.toList_intercalate, List.map_cons, List.map_map, intercalate_cons,
      listing_true_cons, listing_false, List.flatMap_map, Function.comp_def, line]
    simp

/-- Reads the digest behind a key into a table. -/
def readEntry (key : String) (table : Digests) : Reader Digests := fun cs => do
  let (value, cs) ← text (← afterColon cs)
  return (table ++ [(key, value)], cs)

theorem readEntry_colon (key value : String) (table : Digests) (rest : List Char) :
    readEntry key table (": ".toList ++ (quote value).toList ++ rest) =
      .ok (table ++ [(key, value)], rest) := by
  have hcolon : afterColon (": ".toList ++ (quote value).toList ++ rest) =
      .ok (' ' :: ((quote value).toList ++ rest)) := rfl
  have hvalue : text (' ' :: ((quote value).toList ++ rest)) = .ok (value, rest) := by
    rw [toList_quote_append]
    change (stringTail (value.toList.flatMap escape ++ '"' :: rest)).map _ = _
    simp only [stringTail_flatMap_escape, Except.map, String.ofList_toList]
  simp only [readEntry, hcolon, hvalue, bind, Except.bind, pure, Except.pure]

/-- The next key of a table is that of its next line. -/
theorem nextKey_listing (first : Bool) (entry : String × String) (d : Digests) :
    nextKey first (listing first (entry :: d)) =
      .ok (some (entry.1, ": ".toList ++ (quote entry.2).toList ++ listing false d)) := by
  have hkey : ∀ rest, (stringTail (entry.1.toList.flatMap escape ++ '"' :: rest)).bind
      (fun p => .ok (some (String.ofList p.1, p.2))) =
        (.ok (some (entry.1, rest)) : Except Fault (Option (String × List Char))) := by
    intro rest
    rw [stringTail_flatMap_escape, Except.bind, String.ofList_toList]
  have hline : line entry ++ listing false d = ' ' :: ' ' ::
      ((quote entry.1).toList ++ (": ".toList ++ (quote entry.2).toList ++ listing false d)) := by
    simp [line]
  cases first with
  | true =>
    rw [listing_true_cons, List.cons_append, hline, toList_quote_append]
    exact hkey _
  | false =>
    rw [listing_false_cons, List.cons_append, List.cons_append, hline, toList_quote_append]
    exact hkey _

/-- Line by line, a table is read back to its end. -/
theorem members_listing (first : Bool) (d table : Digests) (fuel : Nat) (h : d.length < fuel) :
    members readEntry fuel first table (listing first d) = .ok (table ++ d, []) := by
  induction d generalizing first table fuel with
  | nil =>
    obtain ⟨fuel, rfl⟩ := Nat.exists_eq_add_one_of_ne_zero (Nat.ne_of_gt h)
    rw [List.append_nil]
    rfl
  | cons entry d ih =>
    rw [List.length_cons] at h
    obtain ⟨fuel, rfl⟩ := Nat.exists_eq_add_one_of_ne_zero (Nat.ne_zero_of_lt h)
    have hrest := ih false (table ++ [(entry.1, entry.2)]) fuel (by omega)
    simp only [members, nextKey_listing, readEntry_colon, bind, Except.bind, hrest]
    rw [List.append_assoc, List.singleton_append]

theorem length_le_listing (first : Bool) (d : Digests) : d.length ≤ (listing first d).length := by
  induction d generalizing first with
  | nil => exact Nat.zero_le _
  | cons entry d ih =>
    have := ih false
    cases first <;> simp [listing_true_cons, listing_false_cons] <;> omega

/-- A table is read back as it was written. -/
theorem document_render (d : Digests) : document textTable d.render = .ok d := by
  cases d with
  | nil => rfl
  | cons entry rest =>
    unfold document
    rw [toList_render (by simp)]
    have htable : textTable ('{' :: listing true (entry :: rest)) = .ok (entry :: rest, []) := by
      have hlength := length_le_listing true (entry :: rest)
      exact members_listing true (entry :: rest) [] _ (Nat.lt_succ_of_le hlength)
    rw [htable]
    rfl

/-! ## The order of paths -/

/-- Each path stands once, in order. -/
def Ascending (d : Digests) : Prop := d.Pairwise fun a b => a.1 < b.1

theorem mem_insert {d : Digests} {key digest : String} {entry : String × String}
    (h : entry ∈ d.insert key digest) : entry = (key, digest) ∨ entry ∈ d := by
  fun_induction insert d key digest with
  | case1 => exact Or.inl (List.mem_singleton.mp h)
  | case2 => exact List.mem_cons.mp h
  | case3 =>
    rcases List.mem_cons.mp h with h | h
    · exact Or.inl h
    · exact Or.inr (List.mem_cons_of_mem _ h)
  | case4 _ _ _ _ _ ih =>
    rcases List.mem_cons.mp h with h | h
    · exact Or.inr (List.mem_cons.mpr (Or.inl h))
    · exact (ih h).imp_right (List.mem_cons_of_mem _)

theorem Ascending.insert {d : Digests} (h : d.Ascending) (key digest : String) :
    (d.insert key digest).Ascending := by
  unfold Ascending at h ⊢
  fun_induction Digests.insert d key digest with
  | case1 => exact List.pairwise_singleton _ _
  | case2 k old rest hlt =>
    refine List.pairwise_cons.mpr ⟨?_, h⟩
    intro entry hentry
    rcases List.mem_cons.mp hentry with rfl | hentry
    · exact hlt
    · exact String.lt_trans hlt ((List.pairwise_cons.mp h).1 entry hentry)
  | case3 old rest => exact List.pairwise_cons.mpr (List.pairwise_cons.mp h)
  | case4 k old rest hlt hne ih =>
    obtain ⟨hhead, htail⟩ := List.pairwise_cons.mp h
    refine List.pairwise_cons.mpr ⟨?_, ih htail⟩
    intro entry hentry
    rcases mem_insert hentry with rfl | hentry
    · apply Classical.byContradiction
      intro hnot
      exact hne (String.le_antisymm hnot hlt)
    · exact hhead entry hentry

theorem ascending_ofTable (table : List (String × String)) : (ofTable table).Ascending := by
  suffices h : ∀ d : Digests, d.Ascending →
      (table.foldl (fun d entry => d.insert entry.1 entry.2) d).Ascending from
    h [] List.Pairwise.nil
  induction table with
  | nil => exact fun d h => h
  | cons entry table ih => exact fun d h => ih _ (h.insert entry.1 entry.2)

/-- A path behind all others is put at the end. -/
theorem insert_of_last {d : Digests} {key digest : String} (h : ∀ entry ∈ d, entry.1 < key) :
    d.insert key digest = d ++ [(key, digest)] := by
  fun_induction insert d key digest with
  | case1 => rfl
  | case2 k old rest hlt =>
    exact absurd hlt (String.lt_asymm (h (k, old) List.mem_cons_self))
  | case3 old rest => exact absurd (h (key, old) List.mem_cons_self) (String.lt_irrefl key)
  | case4 k old rest _ _ ih =>
    rw [ih fun entry hentry => h entry (List.mem_cons_of_mem _ hentry), List.cons_append]

/-- Digests in order are those of their own table. -/
theorem Ascending.ofTable_eq {d : Digests} (h : d.Ascending) : ofTable d = d := by
  suffices hfold : ∀ front back : Digests, (front ++ back).Ascending →
      back.foldl (fun d entry => d.insert entry.1 entry.2) front = front ++ back from
    hfold [] d h
  intro front back hall
  induction back generalizing front with
  | nil => exact (List.append_nil front).symm
  | cons entry back ih =>
    have hlast : ∀ other ∈ front, other.1 < entry.1 := by
      intro other hother
      exact (List.pairwise_append.mp hall).2.2 other hother entry List.mem_cons_self
    rw [List.append_cons] at hall ⊢
    have hstep : front.insert entry.1 entry.2 = front ++ [(entry.1, entry.2)] :=
      insert_of_last hlast
    rw [List.foldl_cons, hstep]
    exact ih _ hall

/-- A digest that is there already changes nothing. -/
theorem Ascending.insert_of_get? {d : Digests} (h : d.Ascending) {key digest : String}
    (hget : d.get? key = some digest) : d.insert key digest = d := by
  unfold Ascending at h
  fun_induction Digests.insert d key digest with
  | case1 => cases hget
  | case2 k old rest hlt =>
    -- The path would stand behind one that is larger.
    obtain ⟨entry, hentry, hdigest⟩ := Option.map_eq_some_iff.mp hget
    have hname := List.find?_some hentry
    rw [beq_iff_eq] at hname
    rcases List.mem_cons.mp (List.mem_of_find?_eq_some hentry) with rfl | hmem
    · exact absurd (hname ▸ hlt) (String.lt_irrefl _)
    · have hbehind := (List.pairwise_cons.mp h).1 entry hmem
      rw [hname] at hbehind
      exact absurd hlt (String.lt_asymm hbehind)
  | case3 old rest =>
    have hsame : old = digest := by simpa [get?] using hget
    rw [hsame]
  | case4 k old rest hlt hne ih =>
    have hother : (k == key) = false := by
      rw [beq_eq_false_iff_ne]
      exact fun heq => hne heq.symm
    have hrest : get? rest key = some digest := by simpa [get?, hother] using hget
    rw [ih (List.pairwise_cons.mp h).2 hrest]

/-- Digests in order are read back from their own text. -/
theorem Ascending.parse?_render {d : Digests} (h : d.Ascending) :
    parse? d.render = some d := by
  unfold parse?
  simp only [document_render, h.ofTable_eq]

end Digests

end SourceMacros
