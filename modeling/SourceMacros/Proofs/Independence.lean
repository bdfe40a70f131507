-- Independence: what a text expands to is a matter of the text, the import keyword and the plugins.
-- Files, folders, settings, earlier calls and what they taught a session only decide whether a
-- pass succeeds.
import SourceMacros.Proofs.PackageLaws

namespace SourceMacros

variable {μ : Type} {start s : Session μ} {es : List (Episode μ)}

namespace Lived

theorem settings (h : Lived start es s) : s.settings = start.settings := by
  induction h with
  | start => rfl
  | call c _ _ _ ih => rw [(c.upholds _).settings, ih]
  | save _ ih => rw [(calm_saveRecord _).settings, ih]
  | turn _ _ ih => exact ih
  | outside _ _ _ _ ih => exact ih

theorem registry (h : Lived start es s) : s.registry = start.registry := by
  induction h with
  | start => rfl
  | call c _ _ _ ih => rw [(c.upholds _).registry, ih]
  | save _ ih => rw [(calm_saveRecord _).registry, ih]
  | turn _ _ ih => exact ih
  | outside _ _ _ _ ih => exact ih

/-- With pure plugins, whatever a history taught is what the registry says. -/
theorem coherent (hstart : start.Coherent) (h : Lived start es s) : s.Coherent := by
  refine ⟨by rw [h.registry]; exact hstart.pure, ?_⟩
  induction h with
  | start => exact hstart.cache
  | call _ _ hfs _ ih => exact hfs.meanings ih
  | save _ ih =>
    rw [(calm_saveRecord _).cache, (calm_saveRecord _).registry]
    exact ih
  | turn _ _ ih => exact ih
  | outside _ _ _ _ ih => exact ih

end Lived

theorem Session.Coherent.fresh {settings : Settings} {registry : Registry μ} {tree : FileTree}
    {interrupted : Bool} {memory : μ} (h : registry.Pure) :
    (Session.start settings registry tree interrupted memory).Coherent := by
  refine ⟨h, ?_⟩
  intro entry hentry
  cases hentry

end SourceMacros
