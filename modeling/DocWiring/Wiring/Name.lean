import DocWiring.Text.Search

/-! # Plugin prefixes

A wired name may carry the plugin it comes from, as in `Plugin.Name`.
-/

namespace DocWiring

/-- The name after its last dot, unless nothing follows that dot. -/
def stripPlugin (name : String) : String :=
  match Text.cutLast? ['.'] name.toList with
  | some (_, c :: r) => String.ofList (c :: r)
  | _ => name

theorem stripPlugin_of_no_dot {name : String} (h : Text.cutLast? ['.'] name.toList = none) :
    stripPlugin name = name := by
  simp [stripPlugin, h]

end DocWiring
