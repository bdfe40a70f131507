-- The law of translation: a file is translated whole or not at all. Whatever a pass nests and
-- wherever it fails, every file that differs afterwards is accounted for: temporary files are gone,
-- the record was saved, or the output of a file was written that a loaded manifest lists.
import SourceMacros.Proofs.PackageFrames

namespace SourceMacros

/-! ## Changes that are accounted for -/

namespace FileTree

variable {t t' t₁ : FileTree} {key : Key} {after : Option Node} {path target : Path}
  {hidden outputs hidden' outputs' : Path → Prop} {record : Option Path}

/-- A path names a key, now or after the tree has evolved. -/
def ComesToName (t : FileTree) (path : Path) (key : Key) : Prop :=
  ∃ t' folder name, t.Evolves t' ∧ t'.Enters path folder name ∧ key = folder ++ [name]

/-- A file that is written by a path comes to be at a key, now or after the tree has evolved. -/
def ComesToFill (t : FileTree) (path : Path) (key : Key) : Prop :=
  ∃ t', t.Evolves t' ∧ t'.Fills path key

/-- A folder that is made by a path comes to be at a key, now or after the tree has evolved. -/
def ComesToMake (t : FileTree) (path : Path) (key : Key) : Prop :=
  ∃ t', t.Evolves t' ∧ t'.place path = .ok (.missing key)

/-- Why a node may differ after an operation, and what is there then. -/
inductive Accounted (hidden outputs : Path → Prop) (record : Option Path) (t : FileTree)
    (key : Key) : Option Node → Prop
  /-- The temporary file of a file is gone. -/
  | temporary {target : Path} : hidden target → t.ComesToName target.temporary key →
      Accounted hidden outputs record t key none
  | output {target : Path} {after : Option Node} : outputs target → t.ComesToName target key →
      Accounted hidden outputs record t key after
  | record {path : Path} {after : Option Node} : record = some path → t.ComesToFill path key →
      Accounted hidden outputs record t key after
  /-- A folder that the record lies in was made. -/
  | folder {path above : Path} : record = some path → path.Above above →
      t.ComesToMake above key → Accounted hidden outputs record t key (some .folder)

theorem Accounted.mono (h : Accounted hidden outputs record t key after)
    (hhidden : ∀ target, hidden target → hidden' target)
    (houtputs : ∀ target, outputs target → outputs' target) :
    Accounted hidden' outputs' record t key after := by
  cases h with
  | temporary htarget hnames => exact .temporary (hhidden _ htarget) hnames
  | output htarget hnames => exact .output (houtputs _ htarget) hnames
  | record hrecord hfills => exact .record hrecord hfills
  | folder hrecord habove hmakes => exact .folder hrecord habove hmakes

/-- What is accounted for later is accounted for from the start. -/
theorem Accounted.of_evolves (h : Accounted hidden outputs record t₁ key after)
    (hevolves : t.Evolves t₁) : Accounted hidden outputs record t key after := by
  cases h with
  | temporary htarget hnames =>
    obtain ⟨t', folder, name, hlater, hnames⟩ := hnames
    exact .temporary htarget ⟨t', folder, name, hevolves.trans hlater, hnames⟩
  | output htarget hnames =>
    obtain ⟨t', folder, name, hlater, hnames⟩ := hnames
    exact .output htarget ⟨t', folder, name, hevolves.trans hlater, hnames⟩
  | record hrecord hfills =>
    obtain ⟨t', hlater, hfills⟩ := hfills
    exact .record hrecord ⟨t', hevolves.trans hlater, hfills⟩
  | folder hrecord habove hmakes =>
    obtain ⟨t', hlater, hmakes⟩ := hmakes
    exact .folder hrecord habove ⟨t', hevolves.trans hlater, hmakes⟩

/-- A sound tree evolves into another, and every difference is accounted for. -/
structure Spares (hidden outputs : Path → Prop) (record : Option Path) (t t' : FileTree) :
    Prop where
  sound : t'.Sound
  evolves : t.Evolves t'
  changes : ∀ key, t'.get? key = t.get? key ∨ Accounted hidden outputs record t key (t'.get? key)

theorem Spares.refl (ht : t.Sound) : Spares hidden outputs record t t :=
  ⟨ht, .refl t, fun _ => Or.inl rfl⟩

theorem Spares.trans (h : Spares hidden outputs record t t₁)
    (h' : Spares hidden outputs record t₁ t') : Spares hidden outputs record t t' := by
  refine ⟨h'.sound, h.evolves.trans h'.evolves, ?_⟩
  intro key
  rcases h'.changes key with hsame | hlater
  · rw [hsame]
    exact h.changes key
  · exact Or.inr (hlater.of_evolves h.evolves)

theorem Spares.mono (h : Spares hidden outputs record t t')
    (hhidden : ∀ target, hidden target → hidden' target)
    (houtputs : ∀ target, outputs target → outputs' target) :
    Spares hidden' outputs' record t t' :=
  ⟨h.sound, h.evolves, fun key => (h.changes key).imp id fun h => h.mono hhidden houtputs⟩

/-- A change of one node that is accounted for. -/
theorem Spares.of_change (hsound : t'.Sound) (hevolves : t.Evolves t')
    (hkeep : ∀ other, other ≠ key → t'.get? other = t.get? other)
    (hkey : Accounted hidden outputs record t key (t'.get? key)) :
    Spares hidden outputs record t t' := by
  refine ⟨hsound, hevolves, ?_⟩
  intro other
  by_cases heq : other = key
  · subst heq
    exact Or.inr hkey
  · exact Or.inl (hkeep other heq)

end FileTree

/-! ## Whole passes -/

variable {μ : Type} {s s₁ s' : Session μ}

theorem final_writeThrough (target : Path) (text : String) (s : Session μ) :
    ∃ tree, final (Run.writeThrough target text s) = { s with tree } := by
  rw [writeThrough_eq]
  split
  · exact ⟨s.tree, rfl⟩
  · split
    · exact ⟨_, rfl⟩
    · exact ⟨_, rfl⟩

theorem fromUTF8?_toUTF8 (text : String) : String.fromUTF8? text.toUTF8 = some text := by
  unfold String.fromUTF8?
  split
  · rfl
  · next h => exact absurd text.isValidUTF8 h

/-- A text in the place that a path names is read by the path. -/
theorem FileTree.Enters.reads {t : FileTree} {path : Path} {folder : Key} {name text : String}
    (h : t.Enters path folder name) (hfile : t.get? (folder ++ [name]) = some (.file text.toUTF8)) :
    t.readText path = .ok text := by
  have hfind := h.find (by decide : Purpose.reach ≠ .identify)
    (Or.inr fun link hlink => by rw [hfile] at hlink; cases hlink)
  rw [hfile] at hfind
  unfold FileTree.readText FileTree.read
  rw [hfind]
  dsimp only
  rw [fromUTF8?_toUTF8]

/-- A session over one source that imports a macro of an installed package, and then a macro that
does not exist. A helper of the package is to be expanded, and the record is to be kept in a folder
that is missing. -/
@[irreducible]
def strandedSession : Session Unit :=
  let file (name text : String) : Key × Node := (["pkgs", "p", name], .file text.toUTF8)
  .start { packagesRoot := some ⟨"pkgs"⟩, hashRecord := some ⟨"kept/digests"⟩ }
    (Registry.standard.insert (.package "p" "m") .hello)
    ⟨[(["a.mpy"], .file "macro import p.m\nmacro import lost\n".toUTF8), (["pkgs"], .folder),
      (["pkgs", "p"], .folder), file "macros.json" (manifestText "m.py" "\"h.mpy\""),
      file "m.py" "", file "h.mpy" "x = 1\n"], []⟩ false ()

theorem strandedSession_sound : strandedSession.tree.Sound ∧ strandedSession.tree.Unlinked := by
  unfold strandedSession
  refine ⟨by decide, FileTree.unlinked_of_names ?_⟩
  simp [Session.start]

theorem strandedSession_facts : (value? (translateFile ⟨"a.mpy"⟩ strandedSession)).isNone = true ∧
    (final (translateFile ⟨"a.mpy"⟩ strandedSession)).tree.isFile ⟨"pkgs/p/h.py"⟩ = true ∧
    (final (translateFile ⟨"a.mpy"⟩ strandedSession)).tree.isFile ⟨"kept/digests"⟩ = true := by
  decide +kernel

/-- A session over a source beside a link to a folder that has the name of its output. -/
@[irreducible]
def detourSession : Session Unit :=
  .start {} .standard
    ⟨[(["d.mpy"], .file "x = 1\n".toUTF8), (["y"], .folder), (["d.py"], .link ⟨"y"⟩)], []⟩ false ()

theorem detourSession_sound : detourSession.tree.Sound ∧ detourSession.tree.Unlinked := by
  unfold detourSession
  refine ⟨by decide, FileTree.unlinked_of_names ?_⟩
  simp [Session.start]

end SourceMacros
