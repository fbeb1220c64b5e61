import DocWiring.Cli.Program
import DocWiring.Proofs.Configuration.Saved
import DocWiring.Proofs.FileTree

/-! # The configuration that is written at first

A configuration that has been written where there was none is the standard one.  It is written in JSON
wherever it is, so that it is not read again at the name of a YAML file.
-/

namespace DocWiring

namespace Cli

open FileTree

theorem run_write (t : FileTree ByteArray) (p : Path) (bytes : ByteArray) :
    (disk.write p bytes).run t =
      match t.write p bytes with
      | .ok after => (.ok (), after)
      | .error cause => (.error cause, t) := by
  simp only [disk, StateT.run_bind, StateT.run_get, pure_bind]
  cases t.write p bytes <;> rfl

/-- A configuration file that is there is only replaced by force. -/
theorem run_runInit (t : FileTree ByteArray) (p : Path) (force : Bool) :
    (runInit disk p force).run t =
      if !force && t.contains p then (⟨1, [], existsText⟩, t)
      else
        match t.write p Config.standard.toBytes with
        | .ok after => (⟨0, createdText p Config.standard, []⟩, after)
        | .error cause => (⟨1, [], unwrittenText p cause⟩, t) := by
  have hSurvey : (disk.survey [p]).run t = pure (t.skeleton, t) := rfl
  unfold runInit
  rw [StateT.run_bind, hSurvey, pure_bind]
  simp only [contains_skeleton]
  split
  next => rfl
  next =>
    rw [StateT.run_bind, run_write]
    cases t.write p Config.standard.toBytes <;> rfl

theorem run_execute_init {t : FileTree ByteArray} {i : Invocation} {force : Bool} {place : Location}
    (hInit : i.command = .init force) (hNew : force = true ∨ t.contains i.config = false)
    (hPlace : t.writable i.config = .ok place) (filter : Option String) :
    (execute disk i filter).run t =
      (⟨0, createdText i.config Config.standard, []⟩, t.put place Config.standard.toBytes) := by
  have hGo : ¬ (!force && t.contains i.config) = true := by
    rcases hNew with rfl | hNone
    · simp
    · simp [hNone]
  have hWrite : t.write i.config Config.standard.toBytes = .ok (t.put place Config.standard.toBytes) :=
    write_eq_ok_iff.mpr ⟨place, hPlace, rfl⟩
  simp only [execute, hInit, run_runInit]
  rw [if_neg hGo, hWrite]

end Cli

namespace Config

open FileTree

theorem standard_validated : standard.validated = .ok standard := by
  decide +kernel

/-- YAML has no map in the place of a transform. -/
theorem exists_ofYamlText_save : ∃ reason, ofYamlText standard.save = .error (.yaml reason) :=
  ⟨"the document is no configuration", by decide +kernel⟩

theorem ofFile_toBytes_of_yaml {c : Config} {p : Path} {e : Error} (hYaml : isYamlFile p = true)
    (hText : ofYamlText c.save = .error e) : ofFile p (.ok c.toBytes) = .error e := by
  simp only [ofFile, Except.bind, textOfBytes_toBytes, hYaml, hText, if_true, bind]

theorem load_put {t : FileTree ByteArray} {p : Path} {place : Location} (h : t.writable p = .ok place)
    (bytes : ByteArray) : load (t.put place bytes) p = ofFile p (.ok bytes) := by
  rw [load, read_put h]

theorem load_put_of_yaml {t : FileTree ByteArray} {p : Path} {place : Location}
    (h : t.writable p = .ok place) (hYaml : isYamlFile p = true) :
    ∃ reason, load (t.put place standard.toBytes) p = .error (.yaml reason) := by
  obtain ⟨reason, hText⟩ := exists_ofYamlText_save
  exact ⟨reason, (load_put h _).trans (ofFile_toBytes_of_yaml hYaml hText)⟩

/-- The configuration that is written at first is loaded again, unless it is at the name of a YAML file. -/
theorem load_initial {t : FileTree ByteArray} {i : Cli.Invocation} {force : Bool} {place : Location}
    (hInit : i.command = .init force) (hNew : force = true ∨ t.contains i.config = false)
    (hPlace : t.writable i.config = .ok place) (filter : Option String) :
    ∃ after, (Cli.execute disk i filter).run t = (⟨0, Cli.createdText i.config standard, []⟩, after) ∧
      after = t.put place standard.toBytes ∧
      (isYamlFile i.config = false → load after i.config = .ok standard) ∧
      (isYamlFile i.config = true → ∃ reason, load after i.config = .error (.yaml reason)) := by
  refine ⟨_, Cli.run_execute_init hInit hNew hPlace filter, rfl, fun hJson => ?_, load_put_of_yaml hPlace⟩
  rw [load_put hPlace]
  exact ofFile_toBytes standard_validated hJson

/-- A folder with a hidden file in another folder. -/
def hiddenTree : FileTree ByteArray :=
  ((FileTree.empty ["work"]).addFolder ["work", "conf"]).put ["work", "conf", ".yaml"] "remove".toByteArray

def hiddenInit : Cli.Invocation where
  command := .init true
  config := ⟨"conf/..//conf/.yaml"⟩
  verbose := false
  quiet := false

theorem load_initial_hiddenTree :
    Cli.invocationOf ["init", "-fc", "conf/..//conf/.yaml"] none = .ok hiddenInit ∧
    ∃ after, (Cli.execute disk hiddenInit none).run hiddenTree =
        (⟨0, Cli.createdText hiddenInit.config standard, []⟩, after) ∧
      after.read ⟨"conf/.yaml"⟩ = .ok standard.toBytes ∧ load after hiddenInit.config = .ok standard := by
  have hPlace : hiddenTree.writable hiddenInit.config = .ok ["work", "conf", ".yaml"] := by decide +kernel
  have hJson : isYamlFile hiddenInit.config = false := by decide +kernel
  obtain ⟨after, hRun, hAfter, hLoad, _⟩ := load_initial (i := hiddenInit) rfl (.inl rfl) hPlace none
  refine ⟨by rfl, after, hRun, ?_, hLoad hJson⟩
  rw [hAfter]
  exact read_put (by decide +kernel) _

def yamlInit : Cli.Invocation where
  command := .init false
  config := ⟨"magic.yaml"⟩
  verbose := false
  quiet := false

theorem load_initial_yaml :
    Cli.invocationOf ["--config", "magic.yaml", "init"] none = .ok yamlInit ∧
    ∃ after, (Cli.execute disk yamlInit none).run (FileTree.empty []) =
        (⟨0, Cli.createdText yamlInit.config standard, []⟩, after) ∧
      after.read yamlInit.config = .ok standard.toBytes ∧
      ∃ reason, load after yamlInit.config = .error (.yaml reason) := by
  have hPlace : (FileTree.empty [] : FileTree ByteArray).writable yamlInit.config = .ok ["magic.yaml"] := by
    decide +kernel
  have hNew : (FileTree.empty [] : FileTree ByteArray).contains yamlInit.config = false := by
    decide +kernel
  have hYaml : isYamlFile yamlInit.config = true := by decide +kernel
  exact ⟨by rfl, _, Cli.run_execute_init rfl (.inr hNew) hPlace none, read_put hPlace _,
    load_put_of_yaml hPlace hYaml⟩

end Config

end DocWiring
