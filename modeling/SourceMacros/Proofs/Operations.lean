-- The operations of a session, one after the other: each comes down to deeds. Resolving, expanding
-- and bootstrapping call each other, so what is said of a resolver is assumed of the resolver they
-- are given, and then holds at every depth.
import SourceMacros.Proofs.Deeds

namespace SourceMacros

variable {μ α : Type} {s : Session μ}

/-- What an operation on a session does. -/
abbrev Acts (run : Run μ α) (s : Session μ) (post : α → Session μ → Prop) : Prop :=
  Does (fun s => s) run s post

namespace Acts

theorem bind {β : Type} {run : Run μ α} {next : α → Run μ β} {post : α → Session μ → Prop}
    {post' : β → Session μ → Prop} (hs : s.Coherent) (h : Acts run s post)
    (hnext : ∀ a s₁, s₁.Coherent → Keeps s s₁ → post a s₁ → Acts (next a) s₁ post') :
    Acts (run >>= next) s post' := Does.bind hs h hnext

theorem get : Acts (MonadState.get : Run μ (Session μ)) s fun a s' => s = a ∧ s = s' := Does.get

theorem modify {f : Session μ → Session μ} {d : Deed} (h : Change s d (f s)) :
    Acts (modify f) s fun _ s' => f s = s' := Does.modify h

end Acts

/-! ## Reading -/

theorem acts_ofExcept {result : Except Error α} :
    Acts (Run.ofExcept result) s fun a s' => result = .ok a ∧ s = s' := by
  cases result with
  | ok a => exact Does.pure ⟨rfl, rfl⟩
  | error e => exact Does.throw

theorem acts_ofIo {path : Path} {result : Except IoCause α} :
    Acts (Run.ofIo path result) s fun a s' => result = .ok a ∧ s = s' := by
  cases result with
  | ok a => exact Does.pure ⟨rfl, rfl⟩
  | error cause => exact Does.throw

theorem acts_readText (hs : s.Coherent) (path : Path) :
    Acts (Run.readText path) s fun text s' => s.tree.readText path = .ok text ∧ s = s' := by
  apply Acts.bind hs Acts.get
  rintro _ _ - - ⟨rfl, rfl⟩
  exact acts_ofIo

theorem acts_digest (hs : s.Coherent) (path : Path) :
    Acts (Run.digest path) s fun digest s' =>
      (∃ content, s.tree.read path = .ok content ∧ digest = Digest.ofContent content) ∧ s = s' := by
  apply Acts.bind hs Acts.get
  rintro _ _ - - ⟨rfl, rfl⟩
  apply Acts.bind hs acts_ofIo
  rintro content _ - - ⟨hread, rfl⟩
  exact Does.pure ⟨⟨content, hread, rfl⟩, rfl⟩

theorem acts_outputPath (hs : s.Coherent) (path : Path) :
    Acts (Run.outputPath path) s fun target s' =>
      s.settings.outputPath path = .ok target ∧ s = s' := by
  apply Acts.bind hs Acts.get
  rintro _ _ - - ⟨rfl, rfl⟩
  exact acts_ofExcept

theorem acts_loadManifest (hs : s.Coherent) (path : Path) :
    Acts (Run.loadManifest path) s fun _ s' => s = s' := by
  apply Acts.bind hs Acts.get
  rintro _ _ - - ⟨rfl, rfl⟩
  split
  · exact Does.throw
  · split
    · exact Does.throw
    · exact Does.pure rfl

/-- A text that was read is what its bytes say. -/
theorem toUTF8_of_readText {t : FileTree} {path : Path} {text : String}
    (h : t.readText path = .ok text) : t.read path = .ok text.toUTF8 := by
  unfold FileTree.readText at h
  split at h
  · cases h
  · next content hread =>
    split at h
    · next found hfound =>
      cases h
      rw [hread]
      unfold String.fromUTF8? at hfound
      split at hfound
      · cases hfound
        rfl
      · cases hfound
    · cases h

/-! ## Writing -/

/-- The file that is renamed over another is a file, or else a link or a folder. -/
theorem leads_rename {t : FileTree} {source target : Path}
    (h : s.tree.rename source target = .ok t) : ∃ ds, Leads s ds { s with tree := t } := by
  rcases FileTree.rename_eq_ok h with rfl | ⟨key, goal, node, hgoal, rfl, hnode⟩
  · exact ⟨[], .done _⟩
  · cases node with
    | file content => exact ⟨_, (Change.moved hgoal (hnode content rfl)).leads⟩
    | folder => exact ⟨_, (Change.carried key goal (by simp)).leads⟩
    | link path => exact ⟨_, (Change.carried key goal (by simp)).leads⟩

theorem acts_writeThrough (hs : s.Coherent) (source : SourceText) {output : String}
    (h : Expands s source.name source.text output) (target : Path) :
    Acts (Run.writeThrough target output) s fun _ _ => True := by
  unfold Run.writeThrough
  dsimp only
  apply Acts.bind hs Acts.get
  rintro _ _ - - ⟨rfl, rfl⟩
  apply Acts.bind hs acts_ofIo
  rintro tree _ - - ⟨hwrite, rfl⟩
  obtain ⟨key, hkey, rfl⟩ := FileTree.write_eq_ok hwrite
  apply Acts.bind hs (Acts.modify (Change.wrote hkey h))
  rintro _ _ hs₁ - rfl
  split
  · next tree hrename =>
    obtain ⟨ds, hlead⟩ := leads_rename (s := { s with tree := s.tree.set key _ }) hrename
    refine ⟨⟨ds, ?_⟩, fun _ _ _ => trivial⟩
    exact hlead
  · split
    · next hremove =>
      obtain ⟨key, rfl⟩ := FileTree.removeFile_eq_ok hremove
      apply Acts.bind hs₁ (Acts.modify Change.dropped)
      rintro _ _ - - -
      exact Does.throw
    · exact Does.throw

theorem leads_withFolders (keys : List Key) :
    ∃ ds, Leads s ds { s with tree := s.tree.withFolders keys } := by
  induction keys generalizing s with
  | nil => exact ⟨[], .done s⟩
  | cons key keys ih =>
    obtain ⟨ds, hlead⟩ := ih (s := { s with tree := s.tree.set key .folder })
    exact ⟨_, .step .opened hlead⟩

theorem prepareFolder_final (path : Path) (t : FileTree) :
    ∃ keys, final (HashRecord.prepareFolder path t) = t.withFolders keys := by
  unfold HashRecord.prepareFolder
  split
  · exact ⟨[], rfl⟩
  · next parent _ =>
    obtain ⟨keys, h⟩ := FileTree.makeFoldersUpTo_final (parent.pieces.length + 1) parent t
    split
    · exact ⟨[], rfl⟩
    · split
      · next heq =>
        unfold FileTree.makeFolders at heq
        rw [heq] at h
        exact ⟨keys, h⟩
      · next heq =>
        unfold FileTree.makeFolders at heq
        rw [heq] at h
        exact ⟨keys, h⟩

/-- Saving adds folders and then writes the record, or it fails on the way, or there is nothing to
save. -/
theorem save_cases (r : HashRecord) (t : FileTree) :
    ((r.path = none ∨ r.dirty = false) ∧ r.save t = .ok r t) ∨
      ∃ keys, (∃ e, r.save t = .error e (t.withFolders keys)) ∨
        ∃ key, r.save t = .ok { r with dirty := false }
          ((t.withFolders keys).set key (.file r.digests.render.toUTF8)) := by
  unfold HashRecord.save
  split
  · next hpath => exact Or.inl ⟨Or.inl hpath, rfl⟩
  · next path _ =>
    split
    · next hclean => exact Or.inl ⟨Or.inr (by simpa using hclean), rfl⟩
    · obtain ⟨keys, hfolders⟩ := prepareFolder_final path t
      refine Or.inr ⟨keys, ?_⟩
      split
      · next e _ hprepare =>
        rw [hprepare, final_error] at hfolders
        exact Or.inl ⟨e, by rw [hfolders]⟩
      · next hprepare =>
        rw [hprepare, final_ok] at hfolders
        subst hfolders
        split
        · next hwrite =>
          obtain ⟨key, _, rfl⟩ := FileTree.write_eq_ok hwrite
          exact Or.inr ⟨key, rfl⟩
        · exact Or.inl ⟨_, rfl⟩

theorem acts_saveRecord : Acts Run.saveRecord s fun _ _ => True := by
  refine ⟨?_, fun _ _ _ => trivial⟩
  unfold Run.saveRecord
  rcases save_cases s.record s.tree with ⟨_, hsave⟩ | ⟨keys, ⟨e, hsave⟩ | ⟨key, hsave⟩⟩
  · rw [hsave]
    exact ⟨[], .done s⟩
  · rw [hsave]
    exact leads_withFolders keys
  · rw [hsave]
    obtain ⟨ds, hlead⟩ := leads_withFolders (s := s) keys
    exact ⟨_, hlead.append (Change.saved key).leads⟩

/-! ## Passes -/

/-- A resolver that comes down to deeds, and that answers with what the registry says. -/
def Resolves (resolve : String → Run μ (Definition μ)) : Prop :=
  ∀ reference s, s.Coherent →
    Acts (resolve reference) s fun d _ => s.registry.meaning? reference = some d.meaning

theorem Resolves.answers {resolve : String → Run μ (Definition μ)} (hr : Resolves resolve) :
    Answers resolve := by
  intro reference s d s' hs h
  obtain ⟨⟨ds, hlead⟩, hpost⟩ := hr reference s hs
  rw [h] at hlead
  exact ⟨hpost d s' h, hlead.keeps.bare, hlead.coherent hs⟩

section

open PassRun

variable {a : PassState μ} {resolve : String → Run μ (Definition μ)}

/-- Every imported definition has a pure plugin. -/
def Ready (a : PassState μ) : Prop := ∀ d ∈ a.pass.available, d.plugin.Pure

/-- What an operation of a pass does to the session. -/
abbrev PassActs (run : PassRun μ α) (a : PassState μ) (post : α → PassState μ → Prop) : Prop :=
  Does PassState.session run a post

theorem PassActs.bind {β : Type} {run : PassRun μ α} {next : α → PassRun μ β}
    {post : α → PassState μ → Prop} {post' : β → PassState μ → Prop} (hs : a.session.Coherent)
    (h : PassActs run a post)
    (hnext : ∀ v a₁, a₁.session.Coherent → post v a₁ → PassActs (next v) a₁ post') :
    PassActs (run >>= next) a post' :=
  Does.bind hs h fun v a₁ h₁ _ hp => hnext v a₁ h₁ hp

theorem acts_update (f : Pass μ → Pass μ) :
    PassActs (update f) a fun _ a' => a'.pass = f a.pass := by
  apply Does.of_same rfl
  intro _ _ heq
  cases heq
  rfl

theorem acts_set {a' : PassState μ} (h : a'.session = a.session) :
    PassActs (set a') a fun _ a'' => a' = a'' := by
  apply Does.of_same h
  intro _ _ heq
  cases heq
  rfl

theorem acts_onSession {run : Run μ α} {post : α → Session μ → Prop} (h : Acts run a.session post) :
    PassActs (onSession run) a fun v a' => post v a'.session ∧ a'.pass = a.pass := by
  obtain ⟨⟨ds, hlead⟩, hpost⟩ := h
  unfold PassActs Does onSession
  cases hrun : run a.session with
  | ok v session =>
    rw [hrun] at hlead
    refine ⟨⟨ds, hlead⟩, ?_⟩
    intro _ _ heq
    cases heq
    exact ⟨hpost v session hrun, rfl⟩
  | error e session =>
    rw [hrun] at hlead
    refine ⟨⟨ds, hlead⟩, ?_⟩
    intro _ _ heq
    cases heq

/-- A pure parser does nothing to the session. -/
theorem acts_onStream {parse : Parser μ α} (hp : parse.Pure) :
    PassActs (onStream parse) a fun _ a' => a'.pass = a.pass := by
  obtain ⟨f, rfl⟩ := hp
  cases hf : f a.stream with
  | mk result stream =>
    cases result with
    | ok v =>
      apply Does.of_same
      · simp [onStream, Parser.ofFunction, hf]
      · intro _ _ heq
        simp only [onStream, Parser.ofFunction, hf] at heq
        cases heq
        rfl
    | error e =>
      apply Does.of_same
      · simp [onStream, Parser.ofFunction, hf]
      · intro _ _ heq
        simp only [onStream, Parser.ofFunction, hf] at heq
        cases heq

theorem acts_replaceFrom (start : Nat) :
    PassActs (replaceFrom start) a fun _ a' => a'.pass.available = a.pass.available := by
  apply Does.of_same rfl
  intro _ _ heq
  cases heq
  rfl

theorem acts_importDirective (hr : Resolves resolve) (hs : a.session.Coherent) (ha : Ready a)
    (keyword : Token) (start : Nat) :
    PassActs (importDirective resolve keyword start) a fun _ a' => Ready a' := by
  unfold importDirective
  apply PassActs.bind hs (acts_update _)
  intro _ a₁ hs₁ h₁
  apply PassActs.bind hs₁ (acts_onStream Directive.pure_parse)
  intro directive a₂ hs₂ h₂
  apply PassActs.bind hs₂ (acts_onSession (hr directive.reference a₂.session hs₂))
  intro d a₃ hs₃ ⟨hmeaning, h₃⟩
  apply PassActs.bind hs₃ (acts_update _)
  intro _ a₄ hs₄ h₄
  apply PassActs.bind hs₄ (acts_update _)
  intro _ a₅ _ h₅
  apply (acts_replaceFrom start).mono
  intro _ a' h' e he
  have havailable : a'.pass.available = a.pass.available ++ [d] := by
    rw [h', h₅, Pass.available_insert, h₄, h₃, h₂, h₁, Pass.available_copyThrough]
  rw [havailable] at he
  rcases List.mem_append.mp he with he | he
  · exact ha e he
  · rw [List.mem_singleton.mp he]
    exact hs₂.pure.of_meaning hmeaning

theorem acts_invocation (hs : a.session.Coherent) (ha : Ready a) {d : Definition μ}
    (hd : d.plugin.Pure) (keyword : Token) (start : Nat) :
    PassActs (invocation d keyword start) a fun _ a' => Ready a' := by
  unfold invocation
  apply PassActs.bind hs (acts_update _)
  intro _ a₁ hs₁ h₁
  apply PassActs.bind hs₁ (acts_onStream hd.expand)
  intro text a₂ hs₂ h₂
  apply PassActs.bind hs₂ (acts_update _)
  intro _ a₃ _ h₃
  apply (acts_replaceFrom start).mono
  intro _ a' h' e he
  rw [h', h₃, Pass.available_insert, h₂, h₁, Pass.available_copyThrough] at he
  exact ha e he

theorem acts_plain (ha : Ready a) (token : Token) :
    PassActs (plain token) a fun _ a' => Ready a' := by
  rcases plain_eq (μ := μ) token with heq | heq
  · rw [heq]
    exact Does.pure ha
  · rw [heq]
    apply (acts_update _).mono
    intro _ a' h' e he
    rw [h', Pass.available_copyThrough] at he
    exact ha e he

theorem acts_step (hr : Resolves resolve) (hs : a.session.Coherent) (ha : Ready a) :
    PassActs (step resolve) a fun _ a' => Ready a' := by
  unfold step
  apply PassActs.bind hs Does.get
  rintro _ _ hs₁ ⟨rfl, rfl⟩
  split
  · exact Does.throw_bind
  · dsimp only
    refine PassActs.bind hs (acts_set ?_) ?_
    · rfl
    rintro _ a₁ hs₁ rfl
    have ha₁ : Ready { a with stream := a.stream.skip } := ha
    cases hk : a.stream.peek.kind with
    | indent | dedent =>
      apply (acts_update _).mono
      intro _ a' h' e he
      rw [h'] at he
      exact ha e he
    | newline | number | string | operator | comment | blankBreak | endMarker =>
      exact acts_plain ha₁ _
    | name =>
      dsimp only
      split
      · exact acts_importDirective hr hs₁ ha₁ _ _
      · split
        · next d hd => exact acts_invocation hs₁ ha₁ (ha d (List.mem_of_find?_eq_some hd)) _ _
        · exact acts_plain ha₁ _

theorem acts_steps (hr : Resolves resolve) (hs : a.session.Coherent) (ha : Ready a) (n : Nat) :
    PassActs (steps resolve n) a fun _ a' => Ready a' := by
  induction n generalizing a with
  | zero => exact Does.pure ha
  | succ n ih =>
    unfold steps
    apply PassActs.bind hs Does.get
    rintro _ _ _ ⟨rfl, rfl⟩
    split
    · exact Does.pure ha
    · apply PassActs.bind hs (acts_step hr hs ha)
      intro _ a₁ hs₁ ha₁
      exact ih hs₁ ha₁

theorem acts_expandStream (hr : Resolves resolve) (hs : a.session.Coherent) :
    PassActs (expandStream resolve) a fun _ _ => True := by
  unfold expandStream
  apply PassActs.bind hs (acts_update _)
  intro _ a₁ hs₁ h₁
  have ha₁ : Ready a₁ := by
    intro d hd
    rw [h₁] at hd
    cases hd
  apply PassActs.bind hs₁ Does.get
  rintro _ _ _ ⟨rfl, rfl⟩
  apply PassActs.bind hs₁ (acts_steps hr hs₁ ha₁ _)
  intro _ a₂ hs₂ _
  apply PassActs.bind hs₂ Does.get
  rintro _ _ _ ⟨rfl, rfl⟩
  apply PassActs.bind hs₂ (acts_update _)
  intro _ a₃ hs₃ _
  apply PassActs.bind hs₃ Does.get
  rintro _ _ _ ⟨rfl, rfl⟩
  exact Does.pure trivial

end

end SourceMacros
