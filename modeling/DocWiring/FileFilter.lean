import DocWiring.Config.Basic

/-! # Choosing files

A file below a directory is taken if one of the including patterns accepts its path relative to the
directory, or there are no such patterns, and none of the excluding patterns accepts it.
-/

namespace DocWiring

/-- The patterns of a configuration, read. -/
structure FileFilter where
  included : List Glob.Pattern
  excluded : List Glob.Pattern

namespace FileFilter

def patterns : List String → Except ConfigurationFault (List Glob.Pattern)
  | [] => .ok []
  | t :: rest => do return (← Config.pattern t) :: (← patterns rest)

/-- The filter of a configuration, unless a pattern cannot be read. -/
def ofConfig (c : Config) : Except Error FileFilter :=
  match patterns c.included, patterns c.excluded with
  | .ok included, .ok excluded => .ok ⟨included, excluded⟩
  | .error fault, _ => .error (.configuration fault)
  | _, .error fault => .error (.configuration fault)

def accepts (f : FileFilter) (path : String) : Bool :=
  (f.included.isEmpty || f.included.any (·.accepts path)) && !f.excluded.any (·.accepts path)

end FileFilter

end DocWiring
