-- The laws of bootstrapping. Whatever happens to a session, the helper files of a package are run
-- through at most once, no run of them starts inside another, and between calls a package is
-- marked exactly when its helper files were run through.
import SourceMacros.Proofs.Bookkeeping
import SourceMacros.Proofs.PackageLaws

namespace SourceMacros

variable {μ : Type}

/-! ## Histories -/

/-- What may happen to a session: calls, and between them the record may be saved, the session may
be turned to another folder, and others may change the files, the flag that stops a run and the
memory of plugins. -/
inductive Happening (μ : Type) where
  | call (c : Call μ)
  | save
  | turn (root : Path)
  | outside (tree : FileTree) (interrupted : Bool) (memory : μ)

namespace Happening

/-- The session after it. -/
def perform : Happening μ → Session μ → Session μ
  | call c, s => c.perform s
  | save, s => final (Run.saveRecord s)
  | turn root, s => { s with searchRoot := root }
  | outside tree interrupted memory, s => { s with tree, interrupted, memory }

/-- The session and the log after it. Only a call adds to the log. -/
def noted : Happening μ → Session μ × List Note → Session μ × List Note
  | call c, state => final (Noted.call c state)
  | h, (s, log) => (h.perform s, log)

end Happening

/-- The session after a history. -/
def outcome (start : Session μ) (history : List (Happening μ)) : Session μ :=
  history.foldl (fun s h => h.perform s) start

/-- The session and the log after a history. -/
def chronicle (start : Session μ) (history : List (Happening μ)) : Session μ × List Note :=
  history.foldl (fun state h => h.noted state) (start, [])

theorem final_beside {σ α : Type} (log : List Note) (r : EStateM.Result Error σ α) :
    final (beside log r) = (final r, log) := by
  cases r <;> rfl

/-- Whatever happens, the session is the one without a log, and what is noted accounts for its
marks. -/
theorem Happening.noted_eq (h : Happening μ) (s : Session μ) (log : List Note) :
    ∃ notes, h.noted (s, log) = (h.perform s, log ++ notes) ∧ Logs s notes (h.perform s) := by
  cases h with
  | call c =>
    obtain ⟨notes, hlogs, hsame⟩ := c.notes s
    refine ⟨notes, ?_, hlogs⟩
    rw [noted, hsame, final_beside]
    rfl
  | save =>
    refine ⟨[], by rw [List.append_nil]; rfl, .still ?_⟩
    exact KeepsMarks.saveRecord s
  | turn root => exact ⟨[], by rw [List.append_nil]; rfl, .still rfl⟩
  | outside tree interrupted memory => exact ⟨[], by rw [List.append_nil]; rfl, .still rfl⟩

/-- A log that accounts for the marks so far goes on accounting for them. -/
theorem foldl_noted (history : List (Happening μ)) {start s : Session μ} {log : List Note}
    (hlogs : Logs start log s) :
    ∃ log', history.foldl (fun state h => h.noted state) (s, log) =
        (history.foldl (fun s h => h.perform s) s, log') ∧
      Logs start log' (history.foldl (fun s h => h.perform s) s) := by
  induction history generalizing s log with
  | nil => exact ⟨log, rfl, hlogs⟩
  | cons h history ih =>
    obtain ⟨notes, hnoted, hnext⟩ := h.noted_eq s log
    rw [List.foldl_cons, List.foldl_cons, hnoted]
    exact ih (hlogs.append hnext)

theorem chronicle_logs (start : Session μ) (history : List (Happening μ)) :
    (chronicle start history).1 = outcome start history ∧
      Logs start (chronicle start history).2 (outcome start history) := by
  have hstart : Logs start [] start := .still rfl
  obtain ⟨log, heq, hlogs⟩ := foldl_noted history hstart
  unfold chronicle
  rw [heq]
  exact ⟨rfl, hlogs⟩

/-! ## The law -/

/-- What a log says of the runs of helper files, and of the marks of the session. -/
structure RunsOnce (log : List Note) (s : Session μ) : Prop where
  once : ∀ folder, log.countP (Note.completes folder) ≤ 1
  /-- A run starts where no run in its folder is in progress, and none has gone through. -/
  alone : ∀ before folder after, log = before ++ .began folder :: after →
    ¬ InProgress before folder ∧ before.countP (Note.completes folder) = 0
  finished : ∀ folder, ¬ InProgress log folder
  marked : ∀ folder, s.Marked folder ↔ log.countP (Note.completes folder) = 1
  bootstrapped : ∀ dir, s.isBootstrapped dir = true ↔
    log.countP (Note.completes (s.tree.canonical dir)) = 1

/-- In every history of a session that starts without marks, the helper files of a package are run
through at most once and no run of them starts inside another. After it a package is marked exactly
when its helper files were run through. The log changes nothing, and what is called next is noted in
it. -/
theorem helper_files_are_run_through_at_most_once {start : Session μ}
    (hstart : start.bootstrapped = []) (history : List (Happening μ)) :
    (chronicle start history).1 = outcome start history ∧
      (∀ c : Call μ, ∃ notes, Noted.call c (chronicle start history) =
        beside ((chronicle start history).2 ++ notes) (c.run (outcome start history))) ∧
      RunsOnce (chronicle start history).2 (outcome start history) := by
  obtain ⟨hsame, hlogs⟩ := chronicle_logs start history
  refine ⟨hsame, ?_, ?_⟩
  · intro c
    obtain ⟨notes, -, hcall⟩ := c.notes (outcome start history)
    refine ⟨notes, ?_⟩
    rw [← hcall, ← hsame]
  · have hfresh : ∀ folder, ¬ start.Marked folder := by simp [Session.Marked, hstart]
    have hmarked : ∀ folder, (outcome start history).Marked folder ↔
        (chronicle start history).2.countP (Note.completes folder) = 1 := by
      intro folder
      have honce := hlogs.completes_le_one folder
      rw [hlogs.marked_iff, or_iff_right (hfresh folder)]
      omega
    refine ⟨hlogs.completes_le_one, ?_, ?_, hmarked, ?_⟩
    · intro before folder after heq
      obtain ⟨hstarts, hnone⟩ := hlogs.before_start heq
      refine ⟨?_, hnone⟩
      unfold InProgress
      omega
    · intro folder
      have hends := hlogs.starts_eq_ends folder
      unfold InProgress
      omega
    · intro dir
      rw [Session.isBootstrapped_iff]
      exact hmarked _

/-! ## Two packages that import each other -/

/-- A session over two installed packages. The helper files of the first one are given. One of them
imports from the second package, whose helper imports from the first. -/
@[irreducible]
def pairSession (helpers : String) : Session Unit :=
  let file (package name text : String) : Key × Node :=
    (["pkgs", package, name], .file text.toUTF8)
  .start { packagesRoot := some ⟨"pkgs"⟩ }
    ((Registry.standard.insert (.package "p" "m") .hello).insert (.package "q" "m") .hello)
    ⟨[(["pkgs"], .folder), (["pkgs", "p"], .folder), (["pkgs", "q"], .folder),
      file "p" "macros.json" (manifestText "m.py" helpers), file "p" "m.py" "",
      file "p" "a.mpy" "macro import q.m\n",
      file "q" "macros.json" (manifestText "m.py" "\"c.mpy\""), file "q" "m.py" "",
      file "q" "c.mpy" "macro import p.m\n"], []⟩ false ()

/-- The second helper of the first package is missing. -/
@[irreducible]
def lackingPair : Session Unit := pairSession "\"a.mpy\", \"b.mpy\""

/-- The first package is asked for its macro. Then it lists no helpers any more, and it is asked
twice for a macro that it does not have. -/
def pairHistory : List (Happening Unit) :=
  [.call (.resolve "p.m"), .outside (pairSession "").tree false (), .call (.resolve "p.n"),
    .call (.resolve "p.n")]

/-- The run of the second package goes through inside a run of the first that fails. When the first
package lists no helpers, its run goes through, and it is not run again. -/
theorem the_pair_is_run_through_once :
    lackingPair.bootstrapped = [] ∧
      (chronicle lackingPair pairHistory).2 =
        [.began ⟨"/pkgs/p"⟩, .began ⟨"/pkgs/q"⟩, .completed ⟨"/pkgs/q"⟩, .withdrew ⟨"/pkgs/p"⟩,
          .began ⟨"/pkgs/p"⟩, .completed ⟨"/pkgs/p"⟩] ∧
      (chronicle lackingPair pairHistory).1 = outcome lackingPair pairHistory ∧
      RunsOnce (chronicle lackingPair pairHistory).2 (outcome lackingPair pairHistory) := by
  have hstart : lackingPair.bootstrapped = [] := by
    unfold lackingPair pairSession
    rfl
  have hlog : (chronicle lackingPair pairHistory).2 =
      [.began ⟨"/pkgs/p"⟩, .began ⟨"/pkgs/q"⟩, .completed ⟨"/pkgs/q"⟩, .withdrew ⟨"/pkgs/p"⟩,
        .began ⟨"/pkgs/p"⟩, .completed ⟨"/pkgs/p"⟩] := by
    decide +kernel
  obtain ⟨hsame, -, honce⟩ := helper_files_are_run_through_at_most_once hstart pairHistory
  exact ⟨hstart, hlog, hsame, honce⟩

end SourceMacros
