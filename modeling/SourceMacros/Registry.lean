-- The registry: which plugin stands behind which keyword, of a package or built in.
import SourceMacros.Plugin
import SourceMacros.Sorting

namespace SourceMacros

/-- What a plugin is registered under. -/
inductive PluginKey where
  | builtin (keyword : String)
  | package (owner keyword : String)
  deriving DecidableEq, Repr

namespace PluginKey

/-- The word that triggers the plugin. -/
def keyword : PluginKey → String
  | builtin keyword => keyword
  | package _ keyword => keyword

/-- The reference that leads to the key. -/
def display : PluginKey → String
  | builtin keyword => keyword
  | package owner keyword => owner ++ "." ++ keyword

/-- The key with its fields, as shown to a reader. -/
def debug : PluginKey → String
  | builtin keyword => "Builtin(" ++ Quoted.quote keyword ++ ")"
  | package owner keyword =>
    "Package \x7b package: " ++ Quoted.quote owner ++ ", keyword: " ++ Quoted.quote keyword ++
      " \x7d"

/-- Built-in keys come first; after that fields decide, from left to right. -/
def le : PluginKey → PluginKey → Bool
  | builtin a, builtin b => a ≤ b
  | builtin _, package _ _ => true
  | package _ _, builtin _ => false
  | package p a, package q b => p < q || (p == q && a ≤ b)

end PluginKey

/-- Plugins by key. Each key stands at most once. -/
structure Registry (μ : Type) where
  entries : List (PluginKey × Plugin μ) := []

namespace Registry

variable {μ : Type}

def lookup (r : Registry μ) (key : PluginKey) : Option (Plugin μ) :=
  (r.entries.find? (·.1 = key)).map Prod.snd

def contains (r : Registry μ) (key : PluginKey) : Bool := r.entries.any (·.1 = key)

def size (r : Registry μ) : Nat := r.entries.length

/-- The registry without a key. -/
def erase (r : Registry μ) (key : PluginKey) : Registry μ :=
  ⟨r.entries.filter (·.1 ≠ key)⟩

/-- The registry with a plugin under a key, in place of any other. -/
def insert (r : Registry μ) (key : PluginKey) (plugin : Plugin μ) : Registry μ :=
  ⟨(key, plugin) :: (r.erase key).entries⟩

/-- The registry with a plugin under a key that was free. -/
def insertNew (r : Registry μ) (key : PluginKey) (plugin : Plugin μ) :
    Except Error (Registry μ) :=
  if r.contains key then .error (.internal (.alreadyRegistered key.display))
  else .ok (r.insert key plugin)

/-- The keys in order. -/
def keys (r : Registry μ) : List PluginKey := Sorting.sort PluginKey.le (r.entries.map Prod.fst)

/-- The keys, as shown to a reader. -/
def debug (r : Registry μ) : String :=
  "PluginRegistry \x7b keys: [" ++ ", ".intercalate (r.keys.map PluginKey.debug) ++ "] \x7d"

/-- The built-in plugins of every run. -/
def standard : Registry μ := ({} : Registry μ).insert (.builtin "hello") .hello

@[simp]
theorem lookup_insert_self (r : Registry μ) (key : PluginKey) (plugin : Plugin μ) :
    (r.insert key plugin).lookup key = some plugin := by
  simp [lookup, insert]

theorem lookup_insert_of_ne (r : Registry μ) {key other : PluginKey} (plugin : Plugin μ)
    (h : key ≠ other) : (r.insert key plugin).lookup other = r.lookup other := by
  have erased : (r.erase key).lookup other = r.lookup other := by
    simp only [lookup, erase, List.find?_filter]
    congr 1
    apply congrArg (fun p => List.find? p r.entries)
    funext entry
    by_cases hk : entry.1 = other
    · have : entry.1 ≠ key := fun he => h (he.symm.trans hk)
      simp [hk, Ne.symm h]
    · simp [hk]
  simp only [lookup, insert, List.find?_cons] at erased ⊢
  simp [h, erased]

end Registry

end SourceMacros
