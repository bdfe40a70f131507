-- The laws of the hash record. A source that is skipped was expanded before with the content it
-- has now, and its output holds what was last written there. So the output is right when the last
-- one to be written there has the expansion of the source as it is now, and only then.
import SourceMacros.Proofs.History

namespace SourceMacros

variable {μ : Type}

/-! ## Skipping -/

/-- A source is skipped when its output is there and its content has the digest of the record. -/
theorem bootstrapFile_skips {s s' : Session μ} (hs : s.Coherent) {path : Path}
    (hsource : s.settings.isSource path = true) (h : bootstrapFile path s = .ok false s') :
    s = s' ∧ ∃ content target, s.tree.read path = .ok content ∧
      s.settings.outputPath path = .ok target ∧ s.tree.isFile target = true ∧
      s.record.isUnchanged s.tree path (Digest.ofContent content) = true := by
  unfold bootstrapFile bootstrapFileVia at h
  obtain ⟨_, _, h0, h⟩ := bind_eq_ok.mp h
  cases h0
  simp only [hsource, Bool.not_true, Bool.false_eq_true, if_false] at h
  obtain ⟨digest, s₁, hdigest, h⟩ := bind_eq_ok.mp h
  obtain ⟨⟨content, hread, rfl⟩, rfl⟩ := (acts_digest hs path).2 digest s₁ hdigest
  obtain ⟨target, s₁, htarget, h⟩ := bind_eq_ok.mp h
  obtain ⟨hpath, rfl⟩ := (acts_outputPath hs path).2 target s₁ htarget
  obtain ⟨_, _, h0, h⟩ := bind_eq_ok.mp h
  cases h0
  split at h
  · next hskip =>
    cases h
    rw [Bool.and_eq_true] at hskip
    exact ⟨rfl, content, target, hread, hpath, hskip.1, hskip.2⟩
  · obtain ⟨_, _, _, h⟩ := bind_eq_ok.mp h
    obtain ⟨_, _, _, h⟩ := bind_eq_ok.mp h
    cases h

theorem find_of_isFile {t : FileTree} {path : Path} (h : t.isFile path = true) :
    ∃ key content, t.find path .reach = .ok (.node key (.file content)) := by
  unfold FileTree.isFile FileTree.node? at h
  split at h
  · next content hnode =>
    split at hnode
    · next key node hfind =>
      cases hnode
      exact ⟨key, content, hfind⟩
    · cases hnode
  · cases h

theorem held_of_readText {t : FileTree} {path : Path} {key : Key} {held : ByteArray} {text : String}
    (hfind : t.find path .reach = .ok (.node key (.file held)))
    (h : t.readText path = .ok text) : held = text.toUTF8 := by
  have hread := toUTF8_of_readText h
  unfold FileTree.read at hread
  rw [hfind] at hread
  exact Except.ok.inj hread

theorem mem_of_isUnchanged {r : HashRecord} {t : FileTree} {file : Path} {digest : String}
    (h : r.isUnchanged t file digest = true) : (HashRecord.key t file, digest) ∈ r.digests := by
  unfold HashRecord.isUnchanged HashRecord.get? Digests.get? at h
  rw [beq_iff_eq] at h
  obtain ⟨entry, hentry, rfl⟩ := Option.map_eq_some_iff.mp h
  have hname := List.find?_some hentry
  rw [beq_iff_eq] at hname
  rw [← hname]
  exact List.mem_of_find?_eq_some hentry

/-! ## The laws -/

/-- No content that was noted shares its digest with another content. -/
def NoCollision (ds : List Deed) (content : ByteArray) : Prop :=
  ∀ file old, .noted file old ∈ ds → Digest.ofContent old = Digest.ofContent content →
    old = content

/-- What holds of a skipped source with its content, the path of its output and the file there. -/
structure Skipped (start s : Session μ) (ds : List Deed) (path : Path) (content : ByteArray)
    (target : Path) (key : Key) (held : ByteArray) : Prop where
  reads : s.tree.read path = .ok content
  leads : s.settings.outputPath path = .ok target
  holds : s.tree.find target .reach = .ok (.node key (.file held))
  /-- The content was expanded and noted before. -/
  expanded : NoCollision ds content → .noted (HashRecord.key s.tree path) content ∈ ds ∧
    ∃ name text output, text.toUTF8 = content ∧ Expands s name text output
  /-- What would be written without the record is the expansion of the source as it is now. -/
  anew : ∀ output s₁,
    expandFile path { s with record := { s.record with digests := [] } } = .ok output s₁ →
      ∃ text, text.toUTF8 = content ∧ Expands s path.text text output
  /-- The output is that expansion exactly when it was last filled with it. -/
  right : ∀ text output, text.toUTF8 = content → Expands s path.text text output →
    (held = output.toUTF8 ↔ (provenance ds key).Gives start s output.toUTF8)

/-- Wherever requests, edits and new sessions lead, and whatever is asked for next, a source that is
skipped was expanded before, and its output is right exactly when it was last filled with the
expansion that the source has now. -/
theorem a_skipped_output_is_right_when_last_filled_with_the_same_expansion {start : Session μ}
    (hstart : start.Coherent) (hempty : start.record.digests = []) {ds : List Deed} {s : Session μ}
    (h : Reachable start ds s) :
    (∀ r : Request, ∃ es, Reachable start (ds ++ es) (r.perform s)) ∧
      ∀ path s', s.settings.isSource path = true → bootstrapFile path s = .ok false s' →
        s' = s ∧ ∃ content target key held, Skipped start s ds path content target key held := by
  obtain ⟨hs, haccounts⟩ := h.accounts hstart hempty
  refine ⟨?_, ?_⟩
  · intro r
    obtain ⟨es, hl⟩ := r.leads hs
    exact ⟨es, h.request r hl⟩
  · intro path s' hsource hskip
    obtain ⟨rfl, content, target, hread, htarget, hfile, hsame⟩ :=
      bootstrapFile_skips hs hsource hskip
    obtain ⟨key, held, hfind⟩ := find_of_isFile hfile
    have hheld := haccounts.files key held (FileTree.find_holds hfind).2
    refine ⟨rfl, content, target, key, held, hread, htarget, hfind, ?_, ?_, ?_⟩
    · intro hfree
      obtain ⟨old, hnoted, hdigest⟩ := haccounts.recorded _ (mem_of_isUnchanged hsame)
      rw [hfree _ old hnoted hdigest.symm] at hnoted
      exact ⟨hnoted, haccounts.noted _ _ hnoted⟩
    · intro output s₁ hexpand
      have hanew : { s with record := { s.record with digests := [] } }.Coherent :=
        ⟨hs.pure, hs.cache⟩
      obtain ⟨text, htext, hexpands⟩ :=
        (acts_expandFile resolve_resolves hanew path).2 output s₁ hexpand
      have hbytes := toUTF8_of_readText htext
      rw [hread] at hbytes
      exact ⟨text, (Except.ok.inj hbytes).symm, hexpands⟩
    · intro text output _ _
      constructor
      · rintro rfl
        exact hheld
      · exact hheld.unique

/-! ## Two histories -/

/-- A session with the standard plugins over one source, with a record in the same folder. -/
def draftSession (text : String) : Session Unit :=
  .start { hashRecord := some ⟨"digests"⟩ } .standard ⟨[(["a.mpy"], .file text.toUTF8)], []⟩ false
    ()

def draftPath : Path := ⟨"a.mpy"⟩

theorem draftSession_fresh (text : String) :
    (draftSession text).Coherent ∧ (draftSession text).record.digests = [] := by
  refine ⟨⟨Registry.pure_standard, ?_⟩, rfl⟩
  intro entry hentry
  cases hentry

@[irreducible]
def greetingSession : Session Unit := draftSession "macro import hello\nhello\n"

/-- The greeting after it was expanded once. -/
@[irreducible]
def greeted : Session Unit := (Request.bootstrapFile draftPath).perform greetingSession

/-- The record of the greeting was saved, and a new session read it. -/
@[irreducible]
def reloaded : Session Unit := (Request.saveRecord.perform greeted).reload

def greetingExpanded : String := "# Macro imported: hello\n\nprint(\"Hello World\")\n"

-- The runs are long, so all that is asked of one of them is asked at once.
theorem reloaded_facts : (greeted.record.path ≠ none ∧ greeted.record.dirty = true ∧
      value? (Run.saveRecord greeted) = some () ∧
      reloaded.record.digests = greeted.record.digests) ∧
    reloaded.settings.isSource draftPath = true ∧
    value? (bootstrapFile draftPath reloaded) = some false ∧
    (reloaded.settings.outputPath draftPath).toOption.any (fun target =>
      (reloaded.tree.readText target).toOption.any fun text =>
        decide (text = greetingExpanded)) = true := by
  decide +kernel

theorem reloaded_reachable (hstart : greetingSession.Coherent)
    (hempty : greetingSession.record.digests = []) :
    ∃ ds, Reachable greetingSession ds reloaded := by
  obtain ⟨hpath, hdirty, hsaved, hsame⟩ := reloaded_facts.1
  obtain ⟨ds, h₁⟩ := Reachable.start.after_request hstart hempty (.bootstrapFile draftPath)
  have hgreeted : Reachable greetingSession ds greeted := by
    unfold greeted
    exact h₁
  obtain ⟨es, h₂, hes⟩ := hgreeted.after_save hpath hdirty hsaved
  unfold reloaded at hsame ⊢
  exact ⟨es, h₂.reload (hsame.trans hes.symm)⟩

theorem a_skipped_greeting_has_the_right_output :
    greetingSession.Coherent ∧ greetingSession.record.digests = [] ∧
      ∃ ds content target key, Reachable greetingSession ds reloaded ∧
        bootstrapFile draftPath reloaded = .ok false reloaded ∧
        Skipped greetingSession reloaded ds draftPath content target key
          greetingExpanded.toUTF8 := by
  have hfresh : greetingSession.Coherent ∧ greetingSession.record.digests = [] := by
    unfold greetingSession
    exact draftSession_fresh _
  obtain ⟨hstart, hempty⟩ := hfresh
  obtain ⟨ds, hreach⟩ := reloaded_reachable hstart hempty
  obtain ⟨-, hsource, hskip, houtput⟩ := reloaded_facts
  obtain ⟨s', hskip⟩ := value?_eq_some.mp hskip
  have hlaw :=
    (a_skipped_output_is_right_when_last_filled_with_the_same_expansion hstart hempty hreach).2
  obtain ⟨rfl, content, target, key, held, hfacts⟩ := hlaw draftPath s' hsource hskip
  obtain ⟨target', htarget, htext⟩ := exists_ok_of_any houtput
  obtain ⟨text, htext, hwritten⟩ := exists_ok_of_any htext
  rw [hfacts.leads] at htarget
  cases htarget
  have hheld := held_of_readText hfacts.holds htext
  rw [of_decide_eq_true hwritten] at hheld
  rw [hheld] at hfacts
  exact ⟨hstart, hempty, ds, content, target, key, hreach, hskip, hfacts⟩

@[irreducible]
def firstDraft : Session Unit := draftSession "x = 1\n"

/-- The first draft is expanded. The second one is translated, which notes nothing. Then the first
one is put back. -/
@[irreducible]
def restored : Session Unit :=
  let second := ((Request.bootstrapFile draftPath).perform firstDraft).edit draftPath
    "x = 2\n".toUTF8
  ((Request.translateFile draftPath).perform second).edit draftPath "x = 1\n".toUTF8

theorem restored_facts : firstDraft.settings.isSource draftPath = true ∧
    Digest.ofContent "x = 1\n".toUTF8 ≠ Digest.ofContent "x = 2\n".toUTF8 ∧
    value? (bootstrapFile draftPath restored) = some false ∧
    value? (expandFile draftPath
      { restored with record := { restored.record with digests := [] } }) = some "x = 1\n" ∧
    (restored.settings.outputPath draftPath).toOption.any (fun target =>
      (restored.tree.readText target).toOption.any fun text => decide (text = "x = 2\n")) =
        true := by
  decide +kernel

theorem restored_reachable (hstart : firstDraft.Coherent)
    (hempty : firstDraft.record.digests = []) : ∃ ds, Reachable firstDraft ds restored := by
  have hsource : ∀ {ds s}, Reachable firstDraft ds s → s.settings.isSource draftPath = true := by
    intro ds s h
    rw [h.settings]
    exact restored_facts.1
  obtain ⟨_, h₁⟩ := Reachable.start.after_request hstart hempty (.bootstrapFile draftPath)
  obtain ⟨_, h₂⟩ := h₁.after_edit (hsource h₁) "x = 2\n".toUTF8
  obtain ⟨_, h₃⟩ := h₂.after_request hstart hempty (.translateFile draftPath)
  unfold restored
  exact h₃.after_edit (hsource h₃) "x = 1\n".toUTF8

/-- The source is what it was when it was noted, and the output is that of another text. -/
theorem a_restored_source_is_skipped_over_a_stale_output :
    firstDraft.Coherent ∧ firstDraft.record.digests = [] ∧
      Digest.ofContent "x = 1\n".toUTF8 ≠ Digest.ofContent "x = 2\n".toUTF8 ∧
      ∃ ds s' s₁ target, Reachable firstDraft ds restored ∧
        bootstrapFile draftPath restored = .ok false s' ∧
        expandFile draftPath { restored with record := { restored.record with digests := [] } } =
          .ok "x = 1\n" s₁ ∧
        restored.settings.outputPath draftPath = .ok target ∧
        restored.tree.readText target = .ok "x = 2\n" := by
  have hfresh : firstDraft.Coherent ∧ firstDraft.record.digests = [] := by
    unfold firstDraft
    exact draftSession_fresh _
  obtain ⟨hstart, hempty⟩ := hfresh
  obtain ⟨ds, hreach⟩ := restored_reachable hstart hempty
  obtain ⟨-, hdigests, hskip, hexpand, houtput⟩ := restored_facts
  obtain ⟨s', hskip⟩ := value?_eq_some.mp hskip
  obtain ⟨s₁, hexpand⟩ := value?_eq_some.mp hexpand
  obtain ⟨target, htarget, htext⟩ := exists_ok_of_any houtput
  obtain ⟨text, htext, hstale⟩ := exists_ok_of_any htext
  rw [of_decide_eq_true hstale] at htext
  exact ⟨hstart, hempty, hdigests, ds, s', s₁, target, hreach, hskip, hexpand, htarget, htext⟩

end SourceMacros
