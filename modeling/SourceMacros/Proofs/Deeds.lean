-- Deeds: what an operation on a session comes down to. Every operation, however deep it nests and
-- whether it succeeds or fails, is a row of small changes: an expansion is written, a file is moved
-- or taken away, a folder is made, a content is noted in the record, the record is saved, or the
-- session learns something about references and packages.
import SourceMacros.Proofs.DirectPass
import SourceMacros.Proofs.TreeChanges

namespace SourceMacros

/-- A source as a pass sees it: the name it goes by, and its text. -/
structure SourceText where
  name : String
  text : String
  deriving DecidableEq, Repr

inductive Deed where
  /-- The file at a key was filled with the expansion of a source. -/
  | wrote (key : Key) (source : SourceText)
  /-- A file was moved. -/
  | moved (key goal : Key)
  /-- A link or a folder was moved. -/
  | carried (key goal : Key)
  | dropped (key : Key)
  /-- A folder was made. -/
  | opened (key : Key)
  /-- The record was written to the file at a key. -/
  | saved (key : Key) (digests : Digests)
  /-- A content was noted in the record. -/
  | noted (file : String) (content : ByteArray)
  /-- The user filled the file at a key. No operation does that. -/
  | edited (key : Key) (content : ByteArray)
  /-- Only the session changed, and neither its record nor its files. -/
  | booked

variable {μ : Type}

inductive Change : Session μ → Deed → Session μ → Prop
  | wrote {s : Session μ} {key : Key} {source : SourceText} {output : String} : key ≠ [] →
      Expands s source.name source.text output →
      Change s (.wrote key source) { s with tree := s.tree.set key (.file output.toUTF8) }
  | moved {s : Session μ} {key goal : Key} {content : ByteArray} : goal ≠ [] →
      s.tree.get? key = some (.file content) →
      Change s (.moved key goal) { s with tree := (s.tree.erase key).set goal (.file content) }
  | carried {s : Session μ} (key goal : Key) {node : Node} : (∀ content, node ≠ .file content) →
      Change s (.carried key goal) { s with tree := (s.tree.erase key).set goal node }
  | dropped {s : Session μ} {key : Key} :
      Change s (.dropped key) { s with tree := s.tree.erase key }
  | opened {s : Session μ} {key : Key} :
      Change s (.opened key) { s with tree := s.tree.set key .folder }
  | saved {s : Session μ} (key : Key) :
      Change s (.saved key s.record.digests)
        { s with
          tree := s.tree.set key (.file s.record.digests.render.toUTF8)
          record := { s.record with dirty := false } }
  | noted {s : Session μ} {path : Path} {text output : String} : Expands s path.text text output →
      Change s (.noted (HashRecord.key s.tree path) text.toUTF8)
        { s with record := s.record.update s.tree path (Digest.ofContent text.toUTF8) }
  | remembered {s : Session μ} {reference : String} {d : Definition μ} :
      s.registry.meaning? reference = some d.meaning →
      Change s .booked (s.remember reference d)
  | marked {s : Session μ} {folders : List Path} :
      Change s .booked { s with bootstrapped := folders }
  | turned {s : Session μ} {root : Path} : Change s .booked { s with searchRoot := root }

/-- One session leads to another by deeds. -/
inductive Leads : Session μ → List Deed → Session μ → Prop
  | done (s : Session μ) : Leads s [] s
  | step {s s₁ s' : Session μ} {d : Deed} {ds : List Deed} :
      Change s d s₁ → Leads s₁ ds s' → Leads s (d :: ds) s'

theorem Change.leads {s s' : Session μ} {d : Deed} (h : Change s d s') : Leads s [d] s' :=
  .step h (.done s')

theorem Leads.append {s s₁ s' : Session μ} {ds es : List Deed} (h : Leads s ds s₁)
    (h' : Leads s₁ es s') : Leads s (ds ++ es) s' := by
  induction h with
  | done s => exact h'
  | step hc _ ih => exact .step hc (ih h')

/-! ## What stays -/

/-- What no operation changes. -/
structure Keeps (s s' : Session μ) : Prop where
  settings : s'.settings = s.settings
  registry : s'.registry = s.registry
  memory : s'.memory = s.memory
  interrupted : s'.interrupted = s.interrupted
  recordPath : s'.record.path = s.record.path

theorem Keeps.bare {s s' : Session μ} (h : Keeps s s') : s'.bare = s.bare := by
  unfold Session.bare
  rw [h.settings, h.registry, h.memory]

theorem Keeps.expands {s s' : Session μ} (h : Keeps s s') {name text output : String} :
    Expands s' name text output ↔ Expands s name text output := by
  unfold Expands
  rw [h.bare]

theorem Change.keeps {s s' : Session μ} {d : Deed} (h : Change s d s') : Keeps s s' := by
  cases h <;> exact ⟨rfl, rfl, rfl, rfl, rfl⟩

theorem Leads.keeps {s s' : Session μ} {ds : List Deed} (h : Leads s ds s') : Keeps s s' := by
  induction h with
  | done s => exact ⟨rfl, rfl, rfl, rfl, rfl⟩
  | step hc _ ih =>
    have hk := hc.keeps
    exact ⟨ih.settings.trans hk.settings, ih.registry.trans hk.registry,
      ih.memory.trans hk.memory, ih.interrupted.trans hk.interrupted,
      ih.recordPath.trans hk.recordPath⟩

theorem Change.coherent {s s' : Session μ} {d : Deed} (h : Change s d s') (hs : s.Coherent) :
    s'.Coherent := by
  cases h with
  | remembered hmeaning =>
    refine ⟨hs.pure, ?_⟩
    intro entry hentry
    rcases List.mem_cons.mp hentry with rfl | hentry
    · exact hmeaning
    · exact hs.cache entry (List.mem_filter.mp hentry).1
  | _ => exact ⟨hs.pure, hs.cache⟩

theorem Leads.coherent {s s' : Session μ} {ds : List Deed} (h : Leads s ds s')
    (hs : s.Coherent) : s'.Coherent := by
  induction h with
  | done s => exact hs
  | step hc _ ih => exact ih (hc.coherent hs)

/-! ## Operations -/

/-- Whatever comes of an operation, it leads there by deeds, and what it returns is as said. The
operation may work on more than a session. -/
def Does {σ α : Type} (look : σ → Session μ) (run : EStateM Error σ α) (s : σ)
    (post : α → σ → Prop) : Prop :=
  (∃ ds, Leads (look s) ds (look (final (run s)))) ∧
    ∀ a s', run s = .ok a s' → post a s'

namespace Does

variable {σ α β : Type} {look : σ → Session μ} {s : σ}

theorem of_same {run : EStateM Error σ α} {post : α → σ → Prop}
    (hsame : look (final (run s)) = look s) (hpost : ∀ a s', run s = .ok a s' → post a s') :
    Does look run s post := by
  refine ⟨⟨[], ?_⟩, hpost⟩
  rw [hsame]
  exact .done _

theorem pure {a : α} {post : α → σ → Prop} (h : post a s) :
    Does look (Pure.pure a) s post := by
  apply of_same rfl
  intro _ _ heq
  cases heq
  exact h

theorem throw {e : Error} {post : α → σ → Prop} : Does look (throw e) s post := by
  apply of_same rfl
  intro _ _ heq
  cases heq

theorem throw_bind {e : Error} {next : α → EStateM Error σ β} {post : β → σ → Prop} :
    Does look (MonadExcept.throw e >>= next) s post := by
  have hrun : (MonadExcept.throw e >>= next) s = .error e s := bind_of_error (throw_apply e s)
  apply of_same
  · rw [hrun]
    rfl
  · intro _ _ heq
    rw [hrun] at heq
    cases heq

theorem get : Does look (MonadState.get : EStateM Error σ σ) s fun a s' => s = a ∧ s = s' := by
  apply of_same rfl
  intro _ _ heq
  cases heq
  exact ⟨rfl, rfl⟩

theorem modify {f : σ → σ} {d : Deed} (h : Change (look s) d (look (f s))) :
    Does look (modify f) s fun _ s' => f s = s' := by
  refine ⟨⟨_, h.leads⟩, ?_⟩
  intro _ _ heq
  cases heq
  rfl

theorem mono {run : EStateM Error σ α} {post other : α → σ → Prop} (h : Does look run s post)
    (himp : ∀ a s', post a s' → other a s') : Does look run s other :=
  ⟨h.1, fun a s' heq => himp a s' (h.2 a s' heq)⟩

/-- One operation after another. The second starts from a session that the first led to. -/
theorem bind {run : EStateM Error σ α} {next : α → EStateM Error σ β} {post : α → σ → Prop}
    {post' : β → σ → Prop} (hs : (look s).Coherent) (h : Does look run s post)
    (hnext : ∀ a s₁, (look s₁).Coherent → Keeps (look s) (look s₁) → post a s₁ →
      Does look (next a) s₁ post') : Does look (run >>= next) s post' := by
  obtain ⟨⟨ds, hlead⟩, hpost⟩ := h
  cases hrun : run s with
  | error e s₁ =>
    rw [hrun] at hlead
    unfold Does
    rw [bind_of_error hrun]
    exact ⟨⟨ds, hlead⟩, by intro _ _ heq; cases heq⟩
  | ok a s₁ =>
    rw [hrun] at hlead
    obtain ⟨⟨es, hmore⟩, hpost'⟩ := hnext a s₁ (hlead.coherent hs) hlead.keeps (hpost a s₁ hrun)
    unfold Does
    rw [bind_of_ok hrun]
    exact ⟨⟨ds ++ es, hlead.append hmore⟩, hpost'⟩

/-- A failure that is caught goes on from where it left the session. -/
theorem tryCatch {run : EStateM Error σ α} {handle : Error → EStateM Error σ α}
    {post : α → σ → Prop} (hs : (look s).Coherent) (h : Does look run s post)
    (hhandle : ∀ e s₁, (look s₁).Coherent → Does look (handle e) s₁ post) :
    Does look (MonadExcept.tryCatch run handle) s post := by
  obtain ⟨⟨ds, hlead⟩, hpost⟩ := h
  cases hrun : run s with
  | ok a s₁ =>
    rw [hrun] at hlead
    unfold Does
    rw [catch_of_ok hrun]
    exact ⟨⟨ds, hlead⟩, by intro _ _ heq; cases heq; exact hpost _ _ hrun⟩
  | error e s₁ =>
    rw [hrun] at hlead
    obtain ⟨⟨es, hmore⟩, hpost'⟩ := hhandle e s₁ (hlead.coherent hs)
    unfold Does
    rw [catch_of_error hrun]
    exact ⟨⟨ds ++ es, hlead.append hmore⟩, hpost'⟩

end Does

end SourceMacros
