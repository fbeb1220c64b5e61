import DocWiring.FileTree
import DocWiring.Run.Plan

/-! # Runs on a file tree

A run reads its files from a tree and writes the changed ones back.
-/

namespace DocWiring.Run

/-- Writes the changed files one after another.  A file that cannot be written fails. -/
def writeAll : FileTree ByteArray → List FileResult → List FileResult × FileTree ByteArray
  | t, [] => ([], t)
  | t, r :: rest =>
    match r.bytes? with
    | none =>
      let (results, after) := writeAll t rest
      (r :: results, after)
    | some bytes =>
      match t.write r.path bytes with
      | .ok t =>
        let (results, after) := writeAll t rest
        (r :: results, after)
      | .error cause =>
        let (results, after) := writeAll t rest
        (r.unwritten cause :: results, after)

/-- A run over files of a tree, and the tree after it. -/
def onTree (s : Setup) (t : FileTree ByteArray) (paths : List Path) :
    Except Error (Run × FileTree ByteArray) := do
  let r ← plan s (paths.map fun p => (p, t.read p))
  let (results, after) := writeAll t r.results
  return ({ r with results := results }, after)

end DocWiring.Run
