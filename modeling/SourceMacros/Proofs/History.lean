-- Histories: the requests of a session, the edits of its user and the sessions that follow it. A
-- history tells what each file was last filled with, and which content each digest of the record
-- is of.
import SourceMacros.Proofs.RecordText
import SourceMacros.Proofs.Resolving

namespace SourceMacros

variable {μ : Type}

/-! ## Histories -/

/-- What may be asked of a session. -/
inductive Request where
  | bootstrapFile (path : Path)
  | resolve (reference : String)
  | translateFile (path : Path)
  | translateFolder (dir : Path)
  | bootstrapBuiltins
  | saveRecord

/-- The session after a request, whether it was met or not. -/
def Request.perform (s : Session μ) : Request → Session μ
  | bootstrapFile path => final (SourceMacros.bootstrapFile path s)
  | resolve reference => final (SourceMacros.resolve reference s)
  | translateFile path => final (SourceMacros.translateFile path s)
  | translateFolder dir => final (SourceMacros.translateFolder dir s)
  | bootstrapBuiltins => final (SourceMacros.bootstrapBuiltins s)
  | saveRecord => final (Run.saveRecord s)

/-- The session after a user filled a file. -/
def Session.edit (s : Session μ) (path : Path) (content : ByteArray) : Session μ :=
  match s.tree.write path content with
  | .ok tree => { s with tree }
  | .error _ => s

/-- The session after a user took a file away. -/
def Session.discard (s : Session μ) (path : Path) : Session μ :=
  match s.tree.removeFile path with
  | .ok tree => { s with tree }
  | .error _ => s

/-- A new session in place of another, over the same files. -/
def Session.reload (s : Session μ) : Session μ :=
  .start s.settings s.registry s.tree s.interrupted s.memory

/-- The digests that were saved last. -/
def savedBy (ds : List Deed) : Digests :=
  ds.foldl (fun digests d =>
    match d with
    | .saved _ newer => newer
    | _ => digests) []

/-- The sessions that requests lead to, while the user edits sources and starts new sessions that
read the record as it was saved. -/
inductive Reachable (start : Session μ) : List Deed → Session μ → Prop
  | start : Reachable start [] start
  | request {ds es : List Deed} {s : Session μ} (r : Request) : Reachable start ds s →
      Leads s es (r.perform s) → Reachable start (ds ++ es) (r.perform s)
  | edit {ds : List Deed} {s : Session μ} {path : Path} {content : ByteArray} {key : Key} :
      Reachable start ds s → s.settings.isSource path = true →
      s.edit path content = { s with tree := s.tree.set key (.file content) } → key ≠ [] →
      Reachable start (ds ++ [.edited key content]) (s.edit path content)
  | discard {ds : List Deed} {s : Session μ} {path : Path} {key : Key} :
      Reachable start ds s → s.settings.isSource path = true →
      s.discard path = { s with tree := s.tree.erase key } →
      Reachable start (ds ++ [.dropped key]) (s.discard path)
  | reload {ds : List Deed} {s : Session μ} : Reachable start ds s →
      s.reload.record.digests = savedBy ds → Reachable start ds s.reload

theorem Request.leads {s : Session μ} (hs : s.Coherent) (r : Request) :
    ∃ es, Leads s es (r.perform s) := by
  cases r with
  | bootstrapFile path => exact (acts_bootstrapFile resolve_resolves hs path).1
  | resolve reference => exact (resolve_resolves reference s hs).1
  | translateFile path => exact (acts_translateFile resolve_resolves hs path).1
  | translateFolder dir => exact (acts_translateFolder hs dir).1
  | bootstrapBuiltins => exact (acts_bootstrapBuiltins hs).1
  | saveRecord => exact acts_saveRecord.1

/-! ## What a file was last filled with -/

inductive Provenance where
  /-- With what the file at a key held at the start. -/
  | first (key : Key)
  | user (content : ByteArray)
  | expansion (source : SourceText)
  | record (digests : Digests)

/-- A content is the one that a file got from there. -/
def Provenance.Gives (start s : Session μ) (content : ByteArray) : Provenance → Prop
  | first key => start.tree.get? key = some (.file content)
  | user own => own = content
  | expansion source =>
    ∃ output, Expands s source.name source.text output ∧ output.toUTF8 = content
  | record digests => digests.render.toUTF8 = content

/-- Where the files got their contents from, one deed later. -/
def Deed.provenance (origin : Key → Provenance) : Deed → Key → Provenance
  | wrote key source => fun k => if k = key then .expansion source else origin k
  | moved key goal => fun k => if k = goal then origin key else origin k
  | saved key digests => fun k => if k = key then .record digests else origin k
  | edited key content => fun k => if k = key then .user content else origin k
  | _ => origin

def provenance (ds : List Deed) : Key → Provenance := ds.foldl Deed.provenance .first

theorem Provenance.Gives.unique {start s : Session μ} {a b : ByteArray} {p : Provenance}
    (ha : p.Gives start s a) (hb : p.Gives start s b) : a = b := by
  cases p with
  | first key =>
    have := Eq.trans (Eq.symm ha) hb
    cases this
    rfl
  | user content => exact Eq.trans (Eq.symm ha) hb
  | record digests => exact Eq.trans (Eq.symm ha) hb
  | expansion source =>
    obtain ⟨output, houtput, rfl⟩ := ha
    obtain ⟨other, hother, rfl⟩ := hb
    rw [houtput.unique hother]

theorem Provenance.Gives.keeps {start s s' : Session μ} (h : s'.bare = s.bare) {content : ByteArray}
    {p : Provenance} : p.Gives start s' content ↔ p.Gives start s content := by
  cases p with
  | expansion source =>
    unfold Provenance.Gives Expands
    rw [h]
  | _ => exact Iff.rfl

theorem provenance_snoc (ds : List Deed) (d : Deed) :
    provenance (ds ++ [d]) = d.provenance (provenance ds) := by
  simp [provenance]

/-! ## The account of a history -/

/-- A digest of the record is that of a content that was noted. -/
def Recorded (ds : List Deed) (entry : String × String) : Prop :=
  ∃ content, .noted entry.1 content ∈ ds ∧ entry.2 = Digest.ofContent content

/-- What a history tells about the session it led to. -/
structure Accounts (start s : Session μ) (ds : List Deed) : Prop where
  files : ∀ key content, s.tree.get? key = some (.file content) →
    (provenance ds key).Gives start s content
  recorded : ∀ entry ∈ s.record.digests, Recorded ds entry
  saved : ∀ entry ∈ savedBy ds, Recorded ds entry
  noted : ∀ file content, .noted file content ∈ ds →
    ∃ name text output, text.toUTF8 = content ∧ Expands s name text output

theorem Recorded.append {ds es : List Deed} {entry : String × String} (h : Recorded ds entry) :
    Recorded (ds ++ es) entry := by
  obtain ⟨content, hnoted, hdigest⟩ := h
  exact ⟨content, List.mem_append_left es hnoted, hdigest⟩

theorem file_ne_nil {t : FileTree} {key : Key} {content : ByteArray}
    (h : t.get? key = some (.file content)) : key ≠ [] := by
  rintro rfl
  cases h

/-- A file after a node was set is the node, or was there before. -/
theorem file_of_set {t : FileTree} {key other : Key} {node : Node} {content : ByteArray}
    (h : (t.set key node).get? other = some (.file content)) :
    (other = key ∧ node = .file content) ∨
      (other ≠ key ∧ t.get? other = some (.file content)) := by
  by_cases hk : other = key
  · subst hk
    rw [FileTree.get?_set_self t node (file_ne_nil h)] at h
    cases h
    exact Or.inl ⟨rfl, rfl⟩
  · rw [FileTree.get?_set_of_ne t node (Ne.symm hk)] at h
    exact Or.inr ⟨hk, h⟩

theorem file_of_erase {t : FileTree} {key other : Key} {content : ByteArray}
    (h : (t.erase key).get? other = some (.file content)) :
    t.get? other = some (.file content) :=
  FileTree.get?_of_get?_erase (file_ne_nil h) h

theorem Change.files {start s s' : Session μ} {ds : List Deed} {d : Deed} (hc : Change s d s')
    (h : ∀ key content, s.tree.get? key = some (.file content) →
      (provenance ds key).Gives start s content) :
    ∀ key content, s'.tree.get? key = some (.file content) →
      (provenance (ds ++ [d]) key).Gives start s content := by
  intro k content hk
  rw [provenance_snoc]
  cases hc with
  | wrote hkey hexpands =>
    rcases file_of_set hk with ⟨rfl, hnode⟩ | ⟨hne, hk⟩
    · cases hnode
      simp only [Deed.provenance, if_true]
      exact ⟨_, hexpands, rfl⟩
    · simp only [Deed.provenance, hne, if_false]
      exact h k content hk
  | moved hgoal hfile =>
    rcases file_of_set hk with ⟨rfl, hnode⟩ | ⟨hne, hk⟩
    · cases hnode
      simp only [Deed.provenance, if_true]
      exact h _ _ hfile
    · simp only [Deed.provenance, hne, if_false]
      exact h k content (file_of_erase hk)
  | carried key goal hnode =>
    rcases file_of_set hk with ⟨rfl, hfile⟩ | ⟨hne, hk⟩
    · exact absurd hfile (hnode content)
    · exact h k content (file_of_erase hk)
  | dropped => exact h k content (file_of_erase hk)
  | opened =>
    rcases file_of_set hk with ⟨rfl, hnode⟩ | ⟨hne, hk⟩
    · cases hnode
    · exact h k content hk
  | saved key =>
    rcases file_of_set hk with ⟨rfl, hnode⟩ | ⟨hne, hk⟩
    · cases hnode
      simp only [Deed.provenance, if_true]
      rfl
    · simp only [Deed.provenance, hne, if_false]
      exact h k content hk
  | noted | remembered | marked | turned => exact h k content hk

theorem savedBy_snoc (ds : List Deed) (d : Deed) : savedBy (ds ++ [d]) =
    match d with
    | .saved _ digests => digests
    | _ => savedBy ds := by
  simp only [savedBy, List.foldl_append, List.foldl_cons, List.foldl_nil]

theorem Change.accounts {start s s' : Session μ} {ds : List Deed} {d : Deed} (hc : Change s d s')
    (h : Accounts start s ds) : Accounts start s' (ds ++ [d]) := by
  have hbare := hc.keeps.bare
  refine ⟨?_, ?_, ?_, ?_⟩
  · intro key content hkey
    rw [Provenance.Gives.keeps hbare]
    exact hc.files h.files key content hkey
  · intro entry hentry
    cases hc with
    | noted hexpands =>
      rcases Digests.mem_insert hentry with rfl | hentry
      · exact ⟨_, List.mem_append_right ds List.mem_cons_self, rfl⟩
      · exact (h.recorded entry hentry).append
    | _ => exact (h.recorded entry hentry).append
  · intro entry hentry
    rw [savedBy_snoc] at hentry
    cases hc with
    | saved key => exact (h.recorded entry hentry).append
    | _ => exact (h.saved entry hentry).append
  · intro file content hnoted
    unfold Expands
    rw [hbare]
    rcases List.mem_append.mp hnoted with hnoted | hnoted
    · exact h.noted file content hnoted
    · rw [List.mem_singleton] at hnoted
      subst hnoted
      cases hc with
      | noted hexpands => exact ⟨_, _, _, rfl, hexpands⟩

theorem Leads.accounts {start s s' : Session μ} {ds es : List Deed} (hl : Leads s es s')
    (h : Accounts start s ds) : Accounts start s' (ds ++ es) := by
  induction hl generalizing ds with
  | done s =>
    rw [List.append_nil]
    exact h
  | @step s s₁ s' d es hc _ ih =>
    have := ih (hc.accounts h)
    rw [List.append_assoc] at this
    exact this

/-- An edit changes one file and keeps the books as they are. -/
theorem Accounts.edit {start s : Session μ} {ds : List Deed} (h : Accounts start s ds) (key : Key)
    (content : ByteArray) :
    Accounts start { s with tree := s.tree.set key (.file content) }
      (ds ++ [.edited key content]) := by
  refine ⟨?_, ?_, ?_, ?_⟩
  · intro k other hk
    rw [provenance_snoc]
    rcases file_of_set hk with ⟨rfl, hnode⟩ | ⟨hne, hk⟩
    · cases hnode
      simp only [Deed.provenance, if_true]
      rfl
    · simp only [Deed.provenance, hne, if_false]
      exact (Provenance.Gives.keeps rfl).mpr (h.files k other hk)
  · intro entry hentry
    exact (h.recorded entry hentry).append
  · intro entry hentry
    rw [savedBy_snoc] at hentry
    exact (h.saved entry hentry).append
  · intro file other hnoted
    rcases List.mem_append.mp hnoted with hnoted | hnoted
    · exact h.noted file other hnoted
    · cases List.mem_singleton.mp hnoted

theorem Reachable.accounts {start : Session μ} (hstart : start.Coherent)
    (hempty : start.record.digests = []) {ds : List Deed} {s : Session μ}
    (h : Reachable start ds s) : s.Coherent ∧ Accounts start s ds := by
  induction h with
  | start =>
    refine ⟨hstart, fun _ _ hfile => hfile, ?_, ?_, ?_⟩
    · rw [hempty]
      intro entry hentry
      cases hentry
    · intro entry hentry
      cases hentry
    · intro file content hnoted
      cases hnoted
  | request r _ hl ih => exact ⟨hl.coherent ih.1, hl.accounts ih.2⟩
  | edit _ _ hedit _ ih =>
    rw [hedit]
    exact ⟨⟨ih.1.pure, ih.1.cache⟩, ih.2.edit _ _⟩
  | discard _ _ hdiscard ih =>
    rw [hdiscard]
    exact ⟨⟨ih.1.pure, ih.1.cache⟩, Change.dropped.accounts ih.2⟩
  | reload _ hsaved ih =>
    refine ⟨⟨ih.1.pure, by intro entry hentry; cases hentry⟩, ih.2.files, ?_, ih.2.saved,
      ih.2.noted⟩
    rw [hsaved]
    exact ih.2.saved

/-! ## Going on from a history -/

theorem Reachable.settings {start s : Session μ} {ds : List Deed} (h : Reachable start ds s) :
    s.settings = start.settings := by
  induction h with
  | start => rfl
  | request r _ hl ih => exact hl.keeps.settings.trans ih
  | edit _ _ hedit _ ih =>
    rw [hedit]
    exact ih
  | discard _ _ hdiscard ih =>
    rw [hdiscard]
    exact ih
  | reload _ _ ih => exact ih

theorem Reachable.after_request {start s : Session μ} {ds : List Deed} (hstart : start.Coherent)
    (hempty : start.record.digests = []) (h : Reachable start ds s) (r : Request) :
    ∃ es, Reachable start es (r.perform s) := by
  obtain ⟨es, hl⟩ := r.leads (h.accounts hstart hempty).1
  exact ⟨_, h.request r hl⟩

/-- A record with a change in it that could be saved is what was saved last. -/
theorem Reachable.after_save {start s : Session μ} {ds : List Deed} (h : Reachable start ds s)
    (hpath : s.record.path ≠ none) (hdirty : s.record.dirty = true)
    (hsaved : value? (Run.saveRecord s) = some ()) :
    ∃ es, Reachable start es (Request.saveRecord.perform s) ∧ savedBy es = s.record.digests := by
  rcases save_cases s.record s.tree with ⟨hnone, _⟩ | ⟨keys, ⟨e, hsave⟩ | ⟨key, hsave⟩⟩
  · rcases hnone with hnone | hclean
    · exact absurd hnone hpath
    · rw [hdirty] at hclean
      cases hclean
  · unfold Run.saveRecord at hsaved
    rw [hsave] at hsaved
    cases hsaved
  · obtain ⟨es, hfolders⟩ := leads_withFolders (s := s) keys
    have hleads : Leads s (es ++ [.saved key s.record.digests]) (Request.saveRecord.perform s) := by
      unfold Request.perform Run.saveRecord
      rw [hsave]
      exact hfolders.append (Change.saved key).leads
    refine ⟨_, h.request .saveRecord hleads, ?_⟩
    rw [← List.append_assoc, savedBy_snoc]

/-- An edit of a source leads on, whether the file could be written or not. -/
theorem Reachable.after_edit {start s : Session μ} {ds : List Deed} (h : Reachable start ds s)
    {path : Path} (hsource : s.settings.isSource path = true) (content : ByteArray) :
    ∃ es, Reachable start es (s.edit path content) := by
  cases hwrite : s.tree.write path content with
  | error cause =>
    have hsame : s.edit path content = s := by simp [Session.edit, hwrite]
    rw [hsame]
    exact ⟨ds, h⟩
  | ok tree =>
    obtain ⟨key, hkey, rfl⟩ := FileTree.write_eq_ok hwrite
    exact ⟨_, h.edit hsource (by simp [Session.edit, hwrite]) hkey⟩

end SourceMacros
