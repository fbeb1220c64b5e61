import DocWiring.Proofs.Ancestry
import DocWiring.Proofs.Run.Outcome
import DocWiring.Run.Plan

/-! # Classes of one family

The lineages of two classes that share a class go on alike from there.  Where both lead to a top ancestor
it is the same one, and the classes are merged by the same rules, whatever their files.
-/

namespace DocWiring

namespace ClassIndex

variable {x : ClassIndex} {name top : String} {chain : List String}

/-- The lineages of the names share a class. -/
def Kin (x : ClassIndex) (name name' : String) : Prop :=
  ∃ chain chain' c, Lineage x name chain ∧ Lineage x name' chain' ∧ c ∈ chain ∧ c ∈ chain'

/-- The top ancestor of a class is that of every class of its lineage. -/
theorem topAncestor_of_mem (hTop : x.topAncestor name = .ok top) (h : Lineage x name chain) {c : String}
    (hc : c ∈ chain) : x.topAncestor c = .ok top := by
  obtain ⟨whole, hReaches, hShort⟩ := exists_reaches hTop
  obtain ⟨before, after, rfl⟩ := List.append_of_mem ((hReaches.longest h).subset hc)
  rw [List.length_append] at hShort
  exact (hReaches.of_append before).topAncestor_eq_ok (by omega)

theorem Kin.eq_of_topAncestor {name' top' : String} (h : x.Kin name name')
    (hTop : x.topAncestor name = .ok top) (hTop' : x.topAncestor name' = .ok top') : top' = top := by
  obtain ⟨chain, chain', c, hLineage, hLineage', hc, hc'⟩ := h
  have hShared := topAncestor_of_mem hTop hLineage hc
  have hShared' := topAncestor_of_mem hTop' hLineage' hc'
  exact Except.ok.inj (hShared'.symm.trans hShared)

end ClassIndex

namespace FileResult

open ClassIndex

variable {s : Setup} {index : ClassIndex} {file file' : ParsedFile}

/-- Classes that are kin have the same rules. -/
theorem Merging.eq_of_kin {cls cls' : ClassNode} {outcome outcome' : ClassOutcome}
    {ancestor ancestor' : String} {rules rules' : AttributeRules} {x x' : Extraction}
    (h : Merging s index file cls outcome ancestor rules x)
    (h' : Merging s index file' cls' outcome' ancestor' rules' x') (hKin : index.Kin cls.name cls'.name) :
    ancestor' = ancestor ∧ rules' = rules := by
  obtain rfl := hKin.eq_of_topAncestor h.climbed h'.climbed
  exact ⟨rfl, Option.some.inj (h'.ruled.symm.trans h.ruled)⟩

/-- All classes of a lineage have its top ancestor, names of kin that have one have the same, and classes
of kin that are merged, in whatever files, are merged by the rules of one top ancestor. -/
theorem topAncestor_of_kin (index : ClassIndex) :
    (∀ name top chain, index.topAncestor name = .ok top → Lineage index name chain →
      ∀ c ∈ chain, index.topAncestor c = .ok top) ∧
    (∀ name name' top top', index.Kin name name' → index.topAncestor name = .ok top →
      index.topAncestor name' = .ok top' → top' = top) ∧
    ∀ (s : Setup) (file file' : ParsedFile),
      ∀ o ∈ classOutcomes s index file .start file.classes, o.2.isMerged = true →
      ∀ o' ∈ classOutcomes s index file' .start file'.classes, o'.2.isMerged = true →
      index.Kin o.1.name o'.1.name →
      ∃ top rules x x', Merging s index file o.1 o.2 top rules x ∧
        Merging s index file' o'.1 o'.2 top rules x' := by
  refine ⟨?_, ?_, ?_⟩
  · intro name top chain hTop hLineage c hc
    exact topAncestor_of_mem hTop hLineage hc
  · intro name name' top top' hKin
    exact hKin.eq_of_topAncestor
  · intro s file file' o ho hMerged o' ho' hMerged' hKin
    obtain ⟨top, rules, x, hMerging⟩ := exists_merging_of_mem ho hMerged
    obtain ⟨top', rules', x', hMerging'⟩ := exists_merging_of_mem ho' hMerged'
    obtain ⟨rfl, rfl⟩ := hMerging.eq_of_kin hMerging' hKin
    exact ⟨top', rules', x, x', hMerging, hMerging'⟩

def cousin (name parent : String) (line : Nat) : ClassNode :=
  ⟨name, some parent, line, none, [⟨"uses", some (.list [.bare (.string "Post")])⟩]⟩

/-- A shell and a class that extends it. -/
def elderFile : ParsedFile :=
  ⟨⟨"a.php"⟩, .ofText "<?php\nclass A {}\nclass B {}\n".toList, [cousin "A" "Shell" 2, cousin "B" "A" 3]⟩

/-- Another class that extends the shell. -/
def youngerFile : ParsedFile :=
  ⟨⟨"b.php"⟩, .ofText "<?php\nclass C {}\n".toList, [cousin "C" "A" 2]⟩

def familyIndex : ClassIndex :=
  (Run.fillIndex .empty (Run.declared [elderFile, youngerFile])).1

def familyRules : Setup :=
  ⟨fun _ _ => .ok [], .standard, false, false⟩

theorem topAncestor_of_kin_cousins :
    familyIndex.topAncestor "B" = .ok "Shell" ∧ familyIndex.topAncestor "A" = .ok "Shell" ∧
    familyIndex.Kin "B" "C" ∧ ∃ outcome outcome' top rules x x',
      Merging familyRules familyIndex elderFile (cousin "B" "A" 3) outcome top rules x ∧
      Merging familyRules familyIndex youngerFile (cousin "C" "A" 2) outcome' top rules x' := by
  obtain ⟨hAlong, _, hRules⟩ := topAncestor_of_kin familyIndex
  have hTop : familyIndex.topAncestor "B" = .ok "Shell" := by decide +kernel
  have hOlder : Lineage familyIndex "B" ["B", "A"] := ⟨rfl, by decide +kernel⟩
  have hYounger : Lineage familyIndex "C" ["C", "A"] := ⟨rfl, by decide +kernel⟩
  have hKin : familyIndex.Kin "B" "C" := ⟨_, _, "A", hOlder, hYounger, by simp, by simp⟩
  obtain ⟨o, ho, hName, hMerged⟩ : ∃ o ∈ classOutcomes familyRules familyIndex elderFile .start
      elderFile.classes, o.1 = cousin "B" "A" 3 ∧ o.2.isMerged = true := by decide +kernel
  obtain ⟨o', ho', hName', hMerged'⟩ : ∃ o ∈ classOutcomes familyRules familyIndex youngerFile .start
      youngerFile.classes, o.1 = cousin "C" "A" 2 ∧ o.2.isMerged = true := by decide +kernel
  refine ⟨hTop, hAlong _ _ _ hTop hOlder "A" (by simp), hKin, o.2, o'.2, ?_⟩
  rw [← hName, ← hName']
  exact hRules familyRules elderFile youngerFile o ho hMerged o' ho' hMerged' (by rwa [hName, hName'])

end FileResult

end DocWiring
