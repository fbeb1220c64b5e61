import DocWiring.Config.File
import DocWiring.Proofs.Configuration
import DocWiring.Proofs.Json.RoundTrip
import DocWiring.Proofs.Maps
import DocWiring.Proofs.Source.Encoding

/-! # What is saved is read back

A configuration is read back from the text that it is saved as, with its rules in their order.
-/

namespace DocWiring.Config

open Json

theorem mapM_map {α β : Type} {write : α → β} {read? : β → Option α}
    (h : ∀ a, read? (write a) = some a) (as : List α) : (as.map write).mapM read? = some as := by
  induction as with
  | nil => rfl
  | cons a as ih =>
    rw [List.map_cons, List.mapM_cons, h, ih]
    rfl

/-! ## Values of the fields -/

theorem textsOfJson?_jsonOfTexts (texts : List String) :
    textsOfJson? (jsonOfTexts texts) = some texts := by
  have hText : ∀ s, textOfJson? (.ofString s) = some s := fun _ => rfl
  exact mapM_map hText texts

theorem countOfDigits?_toDigits (n : UInt64) :
    countOfDigits? (Nat.toDigits 10 n.toNat) = some n := by
  have hDigits : (Nat.toDigits 10 n.toNat).all Char.isDigit = true :=
    List.all_eq_true.mpr fun _ hc => Nat.isDigit_of_mem_toDigits (by decide) (by decide) hc
  rw [countOfDigits?, if_pos hDigits]
  simp only [Nat.ofDigitChars_ten_toDigits, UInt64.ofNat_toNat]
  exact if_pos n.toNat_lt_size

theorem countOfJson?_ofNat (n : UInt64) : countOfJson? (.ofNat n.toNat) = some (some n) := by
  rw [ofNat, countOfJson?, countOfDigits?_toDigits]
  rfl

theorem transformOfJson?_jsonOfTransform (transform : Transform) :
    transformOfJson? (jsonOfTransform transform) = some transform := by
  cases transform <;> rfl

theorem entriesOfJson?_ofFields {β : Type} {write : β → Json} {read? : Json → Option β}
    (h : ∀ b, read? (write b) = some b) (entries : List (String × β)) :
    entriesOfJson? read? (.ofFields (entries.map fun e => (e.1, write e.2))) = some entries := by
  rw [ofFields, entriesOfJson?, List.map_map]
  refine mapM_map (fun e => ?_) entries
  simp [h]

theorem rulesOfJson?_jsonOfRules (rules : AttributeRules) :
    rulesOfJson? (jsonOfRules rules) = some rules := by
  rw [rulesOfJson?, jsonOfRules, entriesOfJson?_ofFields transformOfJson?_jsonOfTransform,
    Option.map_some, OrderedMap.ofList_entries]

theorem tableOfJson?_jsonOfTable (t : RuleTable) : tableOfJson? (jsonOfTable t) = some t := by
  rw [tableOfJson?, jsonOfTable, entriesOfJson?_ofFields rulesOfJson?_jsonOfRules,
    Option.map_some, OrderedMap.ofList_entries]

/-! ## Fields -/

theorem Field.ofName?_name (field : Field) : ofName? field.name = some field := by
  cases field <;> decide +kernel

theorem Given.ofNamed?_names {α : Type} {given : Given α} (h : (given.map Prod.fst).Nodup) :
    ofNamed? (given.map fun g => (g.1.name, g.2)) = some given := by
  induction given with
  | nil => rfl
  | cons g given ih =>
    -- A field is refused if it is among those behind it.
    obtain ⟨hNew, hRest⟩ := List.nodup_cons.mp h
    have hFree : (given.any fun other => other.1 = g.1) = false := by
      rw [List.any_eq_false]
      exact fun other hOther hSame => hNew (of_decide_eq_true hSame ▸ List.mem_map_of_mem hOther)
    rw [List.map_cons, ofNamed?, ih hRest, Field.ofName?_name]
    simp only [Option.bind_eq_bind, Option.bind_some, hFree]
    rfl

theorem ofJson?_ofFields (fields : List (String × Json)) :
    ofJson? (.ofFields fields) = (Given.ofNamed? fields).bind (ofGiven? jsonFormat) := by
  rw [ofFields, ofJson?, mapM_map]
  · rfl
  · exact fun f => rfl

/-- The fields that a configuration is written with. -/
def given (c : Config) : Given Json :=
  [(.included, jsonOfTexts c.included), (.excluded, jsonOfTexts c.excluded),
      (.removeUnknown, .bool c.removeUnknown)] ++
    (c.workers.toList.map fun n => (.workers, .ofNat n.toNat)) ++
    [(.transforms, jsonOfTable c.transforms)]

theorem toJson_eq (c : Config) : c.toJson = .ofFields (c.given.map fun g => (g.1.name, g.2)) := by
  rw [given, List.map_append, List.map_append, List.map_map]
  rfl

theorem nodup_given (c : Config) : (c.given.map Prod.fst).Nodup := by
  rw [given, List.map_append, List.map_append, List.map_map]
  cases c.workers with
  | none => exact (by decide : [Field.included, .excluded, .removeUnknown, .transforms].Nodup)
  | some n => exact (by decide : Field.all.Nodup)

theorem ofGiven?_given (c : Config) : ofGiven? jsonFormat c.given = some c := by
  obtain ⟨included, excluded, removeUnknown, workers, transforms⟩ := c
  cases workers with
  | none =>
    simp [ofGiven?, given, Given.read?, jsonFormat, textsOfJson?_jsonOfTexts, flagOfJson?,
      tableOfJson?_jsonOfTable, standard]
  | some n =>
    simp [ofGiven?, given, Given.read?, jsonFormat, textsOfJson?_jsonOfTexts, flagOfJson?,
      countOfJson?_ofNat, tableOfJson?_jsonOfTable]

theorem ofJson?_toJson (c : Config) : ofJson? c.toJson = some c := by
  rw [toJson_eq, ofJson?_ofFields, Given.ofNamed?_names c.nodup_given, Option.bind_some,
    ofGiven?_given]

/-! ## Texts and bytes -/

theorem plain_jsonOfTexts (texts : List String) : Plain (jsonOfTexts texts) := by
  refine .array fun v hv => ?_
  obtain ⟨s, _, rfl⟩ := List.mem_map.mp hv
  exact .string s

theorem plain_jsonOfTransform (transform : Transform) : Plain (jsonOfTransform transform) := by
  cases transform with
  | identity => exact .string _
  | appendSuffix suffix =>
    refine .object fun f hf => ?_
    rw [List.mem_singleton.mp hf]
    exact .string suffix

theorem plain_entries {β : Type} {write : β → Json} (h : ∀ b, Plain (write b))
    (entries : List (String × β)) : Plain (.ofFields (entries.map fun e => (e.1, write e.2))) := by
  refine .object fun f hf => ?_
  obtain ⟨e, _, rfl⟩ := List.mem_map.mp hf
  exact h e.2

theorem plain_jsonOfRules (rules : AttributeRules) : Plain (jsonOfRules rules) :=
  plain_entries plain_jsonOfTransform rules.entries

theorem plain_jsonOfTable (t : RuleTable) : Plain (jsonOfTable t) :=
  plain_entries plain_jsonOfRules t.rules.entries

theorem plain_given (c : Config) : ∀ g ∈ c.given, Plain g.2 := by
  intro g hg
  rcases List.mem_append.mp hg with hg | hg
  · rcases List.mem_append.mp hg with hg | hg
    · rcases List.mem_cons.mp hg with rfl | hg
      · exact plain_jsonOfTexts _
      rcases List.mem_cons.mp hg with rfl | hg
      · exact plain_jsonOfTexts _
      · rw [List.mem_singleton.mp hg]
        exact .bool _
    · obtain ⟨n, _, rfl⟩ := List.mem_map.mp hg
      exact .number _
  · rw [List.mem_singleton.mp hg]
    exact plain_jsonOfTable _

theorem plain_toJson (c : Config) : Plain c.toJson := by
  rw [toJson_eq]
  refine .object fun f hf => ?_
  obtain ⟨g, hg, rfl⟩ := List.mem_map.mp hf
  exact c.plain_given g hg

theorem ofJsonText_save (c : Config) : ofJsonText c.save = .ok c := by
  rw [ofJsonText, save, read?_print c.plain_toJson]
  simp only [ofJson?_toJson]

theorem textOfBytes_toBytes (c : Config) : textOfBytes c.toBytes = .ok c.save := by
  rw [textOfBytes, toBytes, Encoding.utf8Decode?_toByteArray]
  simp

theorem ofFile_toBytes {c : Config} (h : c.validated = .ok c) {p : Path}
    (hJson : isYamlFile p = false) : ofFile p (.ok c.toBytes) = .ok c := by
  simp only [ofFile, Except.bind, textOfBytes_toBytes, hJson, ofJsonText_save]
  exact h

/-- A valid configuration is read from what it is saved as, at any place that is no YAML file. -/
theorem reads_saved {c : Config} (h : c.validated = .ok c) :
    ofJsonText c.save = .ok c ∧ ∀ p, isYamlFile p = false → ofFile p (.ok c.toBytes) = .ok c :=
  ⟨ofJsonText_save c, fun _ hJson => ofFile_toBytes h hJson⟩

/-- A configuration with characters that are escaped, as many workers as there can be, and names that
are in no order. -/
def escaped : Config where
  included := ["\"\\\x00\x1f/**", "", "é/漢/😀*.php"]
  excluded := []
  removeUnknown := true
  workers := some 18446744073709551615
  transforms := ⟨OrderedMap.ofList
    [("Zed\n", OrderedMap.ofList [("b", .appendSuffix "\t\x7f"), ("\"a\"", .identity)]),
      ("Able", OrderedMap.ofList []),
      ("😀", OrderedMap.ofList [("identity", .appendSuffix "identity"), ("append_suffix", .identity)])]⟩

theorem reads_saved_escaped :
    escaped.validated = .ok escaped ∧ ofJsonText escaped.save = .ok escaped ∧
      ofFile ⟨"conf.yaml/all.yml.json"⟩ (.ok escaped.toBytes) = .ok escaped := by
  have hValid : escaped.validated = .ok escaped := by decide +kernel
  have hJson : isYamlFile ⟨"conf.yaml/all.yml.json"⟩ = false := by decide +kernel
  obtain ⟨hText, hFile⟩ := reads_saved hValid
  exact ⟨hValid, hText, hFile _ hJson⟩

end DocWiring.Config
