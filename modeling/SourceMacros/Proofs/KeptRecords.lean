-- Records that are kept in a file. Whatever was updated and saved since a record was loaded, it is
-- the record in its file whenever nothing is left to save, for as long as nobody else writes there.
import SourceMacros.Proofs.Arrivals
import SourceMacros.Proofs.RecordText
import SourceMacros.Proofs.TranslationLaws

namespace SourceMacros

namespace HashRecord

variable {file : Path} {r r' : HashRecord} {t t' : FileTree}

/-! ## Histories of a record -/

/-- A record that was loaded from a file, and the tree as it is now. Since then the record was
updated and saved, and others have changed the tree, but not what is read from the file. -/
inductive Kept (file : Path) : HashRecord → FileTree → Prop
  | loaded (t : FileTree) : Kept file (load t file) t
  | updated {r : HashRecord} {t : FileTree} (source : Path) (digest : String) :
      Kept file r t → Kept file (r.update t source digest) t
  | saved {r r' : HashRecord} {t t' : FileTree} :
      Kept file r t → r.save t = .ok r' t' → Kept file r' t'
  | failed {r : HashRecord} {t t' : FileTree} {e : Error} :
      Kept file r t → r.save t = .error e t' → Kept file r t'
  | meanwhile {r : HashRecord} {t t' : FileTree} :
      Kept file r t → (∀ text, t'.readText file = .ok text ↔ t.readText file = .ok text) →
      Kept file r t'

/-- The record has one digest for a path, and is the one in its file if nothing is left to save. -/
structure Faithful (file : Path) (r : HashRecord) (t : FileTree) : Prop where
  path : r.path = some file
  ascending : r.digests.Ascending
  clean : r.dirty = false → load t file = r

/-! ## Loading -/

theorem load_of_readText {text : String} (h : t.readText file = .ok text) :
    load t file = { path := some file, digests := (Digests.parse? text).getD [] } := by
  unfold load
  rw [h]

theorem load_congr (h : ∀ text, t'.readText file = .ok text ↔ t.readText file = .ok text) :
    load t' file = load t file := by
  cases ht : t.readText file with
  | ok text => rw [load_of_readText ht, load_of_readText ((h text).mpr ht)]
  | error cause =>
    cases ht' : t'.readText file with
    | ok text =>
      rw [(h text).mp ht'] at ht
      cases ht
    | error cause' =>
      unfold load
      rw [ht, ht']

theorem ascending_load (t : FileTree) (file : Path) : (load t file).digests.Ascending := by
  cases ht : t.readText file with
  | ok text =>
    rw [load_of_readText ht]
    unfold Digests.parse?
    split
    · exact Digests.ascending_ofTable _
    · exact List.Pairwise.nil
  | error cause =>
    unfold load
    rw [ht]
    exact List.Pairwise.nil

/-- A record that was written is loaded again. -/
theorem load_of_write (hascending : r.digests.Ascending)
    (h : t.write file r.digests.render.toUTF8 = .ok t') :
    load t' file = { path := some file, digests := r.digests } := by
  have hread : t'.readText file = .ok r.digests.render := by
    unfold FileTree.readText
    rw [FileTree.read_of_write h]
    dsimp only
    rw [fromUTF8?_toUTF8]
  rw [load_of_readText hread, hascending.parse?_render]
  rfl

/-! ## Saving -/

/-- A save that succeeds leaves nothing to save: there was nothing, or the record was written. -/
theorem save_eq_ok (hpath : r.path = some file) (h : r.save t = .ok r' t') :
    r.dirty = false ∧ r' = r ∧ t' = t ∨ r' = { r with dirty := false } ∧
      ∃ t₁ : FileTree, t₁.write file r.digests.render.toUTF8 = .ok t' := by
  unfold save at h
  rw [hpath] at h
  dsimp only at h
  cases hdirty : r.dirty with
  | false =>
    simp only [hdirty, Bool.not_false, if_true] at h
    cases h
    exact Or.inl ⟨rfl, rfl, rfl⟩
  | true =>
    simp only [hdirty, Bool.not_true, Bool.false_eq_true, if_false] at h
    split at h
    · cases h
    · next t₁ _ =>
      split at h
      · next hwrite =>
        cases h
        exact Or.inr ⟨by rw [hpath], t₁, hwrite⟩
      · cases h

/-- Only a record with something to save can fail to be saved. -/
theorem dirty_of_save_eq_error {e : Error} (h : r.save t = .error e t') : r.dirty = true := by
  unfold save at h
  split at h
  · cases h
  · split at h
    · cases h
    · next hdirty => simpa using hdirty

theorem Faithful.update (h : Faithful file r t) (source : Path) (digest : String) :
    Faithful file (r.update t source digest) t := by
  refine ⟨h.path, h.ascending.insert _ _, ?_⟩
  intro hclean
  simp only [HashRecord.update, Bool.or_eq_false_iff, Bool.not_eq_false'] at hclean
  obtain ⟨hdirty, hunchanged⟩ := hclean
  have hsame : r.digests.insert (key t source) digest = r.digests :=
    h.ascending.insert_of_get? (beq_iff_eq.mp hunchanged)
  rw [h.clean hdirty]
  simp only [HashRecord.update, hsame, hunchanged, Bool.not_true, Bool.or_false]

theorem Faithful.save (h : Faithful file r t) (hsave : r.save t = .ok r' t') :
    r'.dirty = false ∧ r'.digests = r.digests ∧ load t' file = r' := by
  rcases save_eq_ok h.path hsave with ⟨hdirty, rfl, rfl⟩ | ⟨rfl, t₁, hwrite⟩
  · exact ⟨hdirty, rfl, h.clean hdirty⟩
  · refine ⟨rfl, rfl, ?_⟩
    rw [load_of_write h.ascending hwrite, ← h.path]

theorem Kept.faithful (h : Kept file r t) : Faithful file r t := by
  induction h with
  | loaded t => exact ⟨rfl, ascending_load t file, fun _ => rfl⟩
  | updated source digest _ ih => exact ih.update source digest
  | saved _ hsave ih =>
    obtain ⟨-, hdigests, hload⟩ := ih.save hsave
    refine ⟨?_, by rw [hdigests]; exact ih.ascending, fun _ => hload⟩
    rw [← hload]
    rfl
  | failed _ hsave ih =>
    have hdirty := dirty_of_save_eq_error hsave
    exact ⟨ih.path, ih.ascending, fun hclean => by rw [hdirty] at hclean; cases hclean⟩
  | meanwhile _ hsame ih =>
    refine ⟨ih.path, ih.ascending, ?_⟩
    intro hclean
    rw [load_congr hsame]
    exact ih.clean hclean

end HashRecord

/-! ## The law -/

/-- Whatever was updated and saved since a record was loaded, a record with nothing to save is the
one in its file. A save that succeeds leaves such a record, with the same digests, and one that
fails leaves the session's record as it was. -/
theorem a_record_with_nothing_to_save_is_the_one_in_its_file {file : Path} {r : HashRecord}
    {t : FileTree} (h : HashRecord.Kept file r t) :
    (r.dirty = false → HashRecord.load t file = r) ∧
      (∀ r' t', r.save t = .ok r' t' →
        r'.dirty = false ∧ r'.digests = r.digests ∧ HashRecord.load t' file = r') ∧
      ∀ {μ : Type} (s s' : Session μ) (e : Error), s.record = r → s.tree = t →
        Run.saveRecord s = .error e s' → s'.record = r := by
  refine ⟨h.faithful.clean, fun _ _ hsave => h.faithful.save hsave, ?_⟩
  rintro μ s s' e rfl rfl hsave
  unfold Run.saveRecord at hsave
  split at hsave
  · cases hsave
  · cases hsave
    rfl

/-- A record loaded from a file that holds no digests, with one digest under a path that has a
quote, a backslash, a line break and a letter past ASCII in it. -/
def quaintTree : FileTree := ⟨[(["digests"], .file "no digests".toUTF8)], []⟩

def quaintRecord : HashRecord :=
  (HashRecord.load quaintTree ⟨"digests"⟩).update quaintTree ⟨"a\"\\\né"⟩ "00"

theorem the_quaint_record_is_the_one_in_its_file :
    HashRecord.Kept ⟨"digests"⟩ quaintRecord quaintTree ∧ quaintRecord.dirty = true ∧
      ∃ r t, quaintRecord.save quaintTree = .ok r t ∧
        HashRecord.load t ⟨"digests"⟩ = r ∧ r.digests = [("a\"\\\né", "00")] := by
  have hkept : HashRecord.Kept ⟨"digests"⟩ quaintRecord quaintTree := .updated _ _ (.loaded _)
  have hfacts : quaintRecord.dirty = true ∧ quaintRecord.digests = [("a\"\\\né", "00")] ∧
      (value? (quaintRecord.save quaintTree)).isSome = true := by
    decide
  obtain ⟨hdirty, hdigests, hsome⟩ := hfacts
  obtain ⟨r, hvalue⟩ := Option.isSome_iff_exists.mp hsome
  obtain ⟨t, hsave⟩ := value?_eq_some.mp hvalue
  obtain ⟨-, hsame, hload⟩ :=
    (a_record_with_nothing_to_save_is_the_one_in_its_file hkept).2.1 r t hsave
  exact ⟨hkept, hdirty, r, t, hsave, hload, by rw [hsame]; exact hdigests⟩

end SourceMacros
