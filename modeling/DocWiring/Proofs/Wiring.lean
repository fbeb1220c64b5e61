import DocWiring.Merge
import DocWiring.Proofs.Maps

/-! # What a class wires

A list wires a symbol by the last of its items that names it, plugin prefixes removed.  The annotations
of a class are those of its lists, attributes in the order of their declaration and the symbols of one
attribute in ascending order, so that the order of items for different symbols does not matter.
-/

namespace DocWiring

namespace Wiring

variable {items items' : List ListItem} {item : ListItem} {symbol short written ty : String}

/-- The item of a list that gives a type. -/
def typeItem (ty : String) : ListItem :=
  .keyed (.string classNameKey) (.string ty)

/-- The item wires this symbol and this type, as they are written. -/
inductive Wires : ListItem → String → String → Prop where
  | bare (s : String) : Wires (.bare (.string s)) s s
  | typed (key ty : String) (before rest : List ListItem) : (∀ other, typeItem other ∉ before) →
      Wires (.keyed (.string key) (.list (before ++ typeItem ty :: rest))) key ty
  | untyped (key : String) (items : List ListItem) : (∀ other, typeItem other ∉ items) →
      Wires (.keyed (.string key) (.list items)) key key

def typeItem? : ListItem → Option String
  | .keyed (.string key) (.string ty) => if key = classNameKey then some ty else none
  | _ => none

theorem typeItem?_eq_some_iff : typeItem? item = some ty ↔ item = typeItem ty := by
  unfold typeItem? typeItem
  split
  next => split <;> simp_all
  next hOther =>
    constructor
    · rintro ⟨⟩
    · rintro rfl
      exact absurd rfl (hOther _ _)

theorem typeItem?_eq_none_iff : typeItem? item = none ↔ ∀ ty, item ≠ typeItem ty := by
  simp only [Option.eq_none_iff_forall_ne_some, Ne, typeItem?_eq_some_iff]

theorem className?_eq_findSome? (items : List ListItem) :
    className? items = items.findSome? typeItem? := by
  fun_induction className? items with
  | case1 => rfl
  | case2 value rest => simp [typeItem?]
  | case3 key value rest hOther ih => simp [typeItem?, hOther, ih]
  | case4 item rest hOther ih =>
    have hNone : typeItem? item = none := by
      rw [typeItem?_eq_none_iff]
      rintro ty rfl
      exact hOther _ _ rfl
    simp [hNone, ih]

theorem forall_typeItem?_eq_none_iff :
    (∀ item ∈ items, typeItem? item = none) ↔ ∀ other, typeItem other ∉ items := by
  simp only [typeItem?_eq_none_iff]
  constructor
  · exact fun h other hMem => h _ hMem other rfl
  · rintro h _ hMem other rfl
    exact h other hMem

theorem className?_eq_none_iff : className? items = none ↔ ∀ other, typeItem other ∉ items := by
  rw [className?_eq_findSome?, List.findSome?_eq_none_iff, forall_typeItem?_eq_none_iff]

theorem className?_eq_some_iff : className? items = some ty ↔
    ∃ before rest, items = before ++ typeItem ty :: rest ∧ ∀ other, typeItem other ∉ before := by
  rw [className?_eq_findSome?, List.findSome?_eq_some_iff]
  constructor
  · rintro ⟨before, item, rest, rfl, hItem, hBefore⟩
    obtain rfl := typeItem?_eq_some_iff.mp hItem
    exact ⟨before, rest, rfl, forall_typeItem?_eq_none_iff.mp hBefore⟩
  · rintro ⟨before, rest, rfl, hBefore⟩
    exact ⟨before, _, rest, rfl, typeItem?_eq_some_iff.mpr rfl,
      forall_typeItem?_eq_none_iff.mpr hBefore⟩

theorem entry?_eq_some_iff : entry? item = some (written, ty) ↔ Wires item written ty := by
  constructor
  · intro h
    unfold entry? at h
    split at h
    next =>
      cases h
      exact .bare _
    next key items =>
      obtain ⟨rfl, hType⟩ := Prod.mk.inj (Option.some.inj h)
      cases hFound : className? items with
      | none =>
        obtain rfl : key = ty := by simpa [hFound] using hType
        exact .untyped key items (className?_eq_none_iff.mp hFound)
      | some found =>
        obtain rfl : found = ty := by simpa [hFound] using hType
        obtain ⟨before, rest, rfl, hBefore⟩ := className?_eq_some_iff.mp hFound
        exact .typed key found before rest hBefore
    next => cases h
  · intro h
    cases h with
    | bare s => rfl
    | typed key ty before rest hBefore =>
      have hFound : className? (before ++ typeItem ty :: rest) = some ty :=
        className?_eq_some_iff.mpr ⟨before, rest, rfl, hBefore⟩
      simp [ entry?, hFound]
    | untyped key items hNone =>
      have hFound := className?_eq_none_iff.mpr hNone
      simp [ entry?, hFound]

/-- The item wires the symbol, once plugin prefixes are removed. -/
def Names (item : ListItem) (symbol : String) : Prop :=
  ∃ written ty, Wires item written ty ∧ stripPlugin written = symbol

/-- The last item for the symbol gives it this type. -/
def Decides (items : List ListItem) (symbol ty : String) : Prop :=
  ∃ before item after written, items = before ++ item :: after ∧ Wires item written ty ∧
    stripPlugin written = symbol ∧ ∀ later ∈ after, ¬ Names later symbol

/-- The type that an item gives to a symbol, both without their prefixes. -/
def shortType? (symbol : String) (item : ListItem) : Option String :=
  match entry? item with
  | some (written, ty) => if stripPlugin written = symbol then some (stripPlugin ty) else none
  | none => none

theorem shortType?_eq_some_iff : shortType? symbol item = some short ↔
    ∃ written ty, Wires item written ty ∧ stripPlugin written = symbol ∧ stripPlugin ty = short := by
  simp only [← entry?_eq_some_iff]
  unfold shortType?
  cases entry? item with
  | none => simp
  | some e =>
    obtain ⟨written, ty⟩ := e
    simp [and_assoc]

theorem shortType?_eq_none_iff : shortType? symbol item = none ↔ ¬ Names item symbol := by
  simp only [Option.eq_none_iff_forall_ne_some, Ne, shortType?_eq_some_iff, Names]
  constructor
  · rintro h ⟨written, ty, hWires, hSymbol⟩
    exact h _ ⟨written, ty, hWires, hSymbol, rfl⟩
  · rintro h _ ⟨written, ty, hWires, hSymbol, _⟩
    exact h ⟨written, ty, hWires, hSymbol⟩

theorem find?_symbols (items : List ListItem) (symbol : String) :
    (symbols items).find? symbol = items.reverse.findSome? (shortType? symbol) := by
  unfold symbols
  induction items with
  | nil => rfl
  | cons item items ih =>
    -- The head only counts if no item after it names the symbol.
    rw [List.reverse_cons, List.findSome?_append, ← ih]
    cases hEntry : entry? item with
    | none => simp [hEntry, shortType?]
    | some e => simp [hEntry, shortType?, SortedMap.find?_ofList_cons]

theorem find?_symbols_eq_some_iff : (symbols items).find? symbol = some short ↔
    ∃ ty, Decides items symbol ty ∧ stripPlugin ty = short := by
  rw [find?_symbols, List.findSome?_eq_some_iff]
  constructor
  · rintro ⟨after, item, before, hItems, hItem, hAfter⟩
    obtain ⟨written, ty, hWires, hSymbol, hShort⟩ := shortType?_eq_some_iff.mp hItem
    refine ⟨ty, ⟨before.reverse, item, after.reverse, written, ?_, hWires, hSymbol, ?_⟩, hShort⟩
    · simpa using congrArg List.reverse hItems
    · intro later hLater
      exact shortType?_eq_none_iff.mp (hAfter later (List.mem_reverse.mp hLater))
  · rintro ⟨ty, ⟨before, item, after, written, rfl, hWires, hSymbol, hAfter⟩, hShort⟩
    refine ⟨after.reverse, item, before.reverse, by simp,
      shortType?_eq_some_iff.mpr ⟨written, ty, hWires, hSymbol, hShort⟩, ?_⟩
    intro later hLater
    exact shortType?_eq_none_iff.mpr (hAfter later (List.mem_reverse.mp hLater))

/-! ## The order of items -/

/-- The items wire no symbol in common. -/
def Apart (item other : ListItem) : Prop :=
  ∀ symbol, Names item symbol → ¬ Names other symbol

/-- Items that wire different symbols change places. -/
inductive Reordered : List ListItem → List ListItem → Prop where
  | refl (items : List ListItem) : Reordered items items
  | within (front back : List ListItem) {items items' : List ListItem} : items.Perm items' →
      items.Pairwise Apart → Reordered (front ++ items ++ back) (front ++ items' ++ back)
  | trans {items items' items'' : List ListItem} : Reordered items items' → Reordered items' items'' →
      Reordered items items''

theorem findSome?_perm {α β : Type} {f : α → Option β} {l l' : List α} (hPerm : l.Perm l')
    (hOne : l.Pairwise fun a b => f a = none ∨ f b = none) : l.findSome? f = l'.findSome? f := by
  have hShort : (l.filterMap f).Pairwise fun _ _ => False := by
    refine List.pairwise_filterMap.mpr (hOne.imp ?_)
    intro a b hNone c hc d hd
    simp [hc, hd] at hNone
  have hFound := hPerm.filterMap f
  rw [← List.head?_filterMap, ← List.head?_filterMap]
  rcases hLeft : l.filterMap f with _ | ⟨c, _ | ⟨d, r⟩⟩
  · rw [hLeft, List.nil_perm] at hFound
    rw [hFound]
  · rw [hLeft, List.singleton_perm] at hFound
    rw [hFound]
  · rw [hLeft, List.pairwise_cons] at hShort
    exact (hShort.1 d List.mem_cons_self).elim

theorem Reordered.symbols_eq (h : Reordered items items') : symbols items' = symbols items := by
  induction h with
  | refl => rfl
  | trans _ _ ih ih' => exact ih'.trans ih
  | @within front back items items' hPerm hApart =>
    apply SortedMap.eq_of_find?_eq
    intro symbol
    have hOne : items.reverse.Pairwise
        fun i j => shortType? symbol i = none ∨ shortType? symbol j = none := by
      rw [List.pairwise_reverse]
      refine hApart.imp fun {i j} hDiffer => ?_
      rw [shortType?_eq_none_iff, shortType?_eq_none_iff]
      by_cases hNames : Names i symbol
      · exact .inl (hDiffer symbol hNames)
      · exact .inr hNames
    have hReverse : items.reverse.Perm items'.reverse :=
      (List.reverse_perm items).trans (hPerm.trans (List.reverse_perm items').symm)
    simp only [find?_symbols, List.reverse_append, List.findSome?_append, findSome?_perm hReverse hOne]

end Wiring

/-- The default values wire the same, but for the order of the items of a list. -/
inductive AttributeDeclaration.Reordered : AttributeDeclaration → AttributeDeclaration → Prop where
  | refl (a : AttributeDeclaration) : Reordered a a
  | list (name : String) {items items' : List ListItem} : Wiring.Reordered items items' →
      Reordered ⟨name, some (.list items)⟩ ⟨name, some (.list items')⟩

namespace Extractor

variable {x : Extractor} {seen ns : List String} {n : String} {path : Path} {cls : ClassNode}
  {a b : AttributeDeclaration} {as bs : List AttributeDeclaration}

theorem firstRepeated?_eq_none_iff :
    firstRepeated? seen ns = none ↔ ns.Nodup ∧ ∀ n ∈ ns, n ∉ seen := by
  induction ns generalizing seen with
  | nil => simp [firstRepeated?]
  | cons n ns ih =>
    unfold firstRepeated?
    split
    next hSeen => simp [hSeen]
    next hNew =>
      rw [ih, List.nodup_cons, List.forall_mem_cons]
      simp only [List.mem_cons, not_or]
      constructor
      · rintro ⟨hNodup, hOther⟩
        exact ⟨⟨fun hMem => (hOther n hMem).1 rfl, hNodup⟩, hNew, fun m hm => (hOther m hm).2⟩
      · rintro ⟨⟨hHere, hNodup⟩, _, hOther⟩
        exact ⟨hNodup, fun m hm => ⟨fun hSame => hHere (hSame ▸ hm), hOther m hm⟩⟩

theorem sublist_of_firstRepeated? (h : firstRepeated? seen ns = some n) :
    n ∈ ns ∧ (n ∈ seen ∨ [n, n].Sublist ns) := by
  induction ns generalizing seen with
  | nil => cases h
  | cons m ns ih =>
    unfold firstRepeated? at h
    split at h
    next hSeen =>
      obtain rfl := Option.some.inj h
      exact ⟨List.mem_cons_self, .inl hSeen⟩
    next =>
      obtain ⟨hMem, hBefore⟩ := ih h
      refine ⟨List.mem_cons_of_mem m hMem, ?_⟩
      rcases hBefore with hSeen | hTwice
      · rcases List.mem_cons.mp hSeen with rfl | hSeen
        · exact .inr ((List.singleton_sublist.mpr hMem).cons_cons n)
        · exact .inl hSeen
      · exact .inr (hTwice.cons m)

/-- Two declarations of the class, in this order, that have one name, which the extractor knows. -/
structure Repeated (x : Extractor) (cls : ClassNode) (a b : AttributeDeclaration) : Prop where
  both : [a, b].Sublist cls.attributes
  same : a.name = b.name
  known : x.knows a.name = true

theorem sublist_collected (h : x.Repeated cls a b) :
    [a.name, a.name].Sublist ((x.collected cls).map (·.name)) := by
  have hBoth := (h.both.filter fun a => x.knows a.name).map (·.name)
  have hKept : [a, b].filter (fun a => x.knows a.name) = [a, b] := by
    simp [h.known, ← h.same]
  rw [hKept, List.map_cons, List.map_singleton, ← h.same] at hBoth
  exact hBoth

theorem exists_repeated (h : [n, n].Sublist ((x.collected cls).map (·.name))) :
    ∃ a b, x.Repeated cls a b ∧ a.name = n := by
  obtain ⟨l, hl, hNames⟩ := List.sublist_map_iff.mp h
  obtain ⟨a, b, rfl⟩ : ∃ a b, l = [a, b] := by
    have hLength := congrArg List.length hNames
    exact List.length_eq_two.mp (by simpa using hLength.symm)
  obtain ⟨ha, hb⟩ : n = a.name ∧ n = b.name := by simpa using hNames
  refine ⟨a, b, ⟨hl.trans List.filter_sublist, ha.symm.trans hb, ?_⟩, ha.symm⟩
  exact (List.mem_filter.mp (hl.subset List.mem_cons_self)).2

theorem extract_eq_error {e : Error} (h : x.extract path cls = .error e) : ∃ a b, x.Repeated cls a b ∧
    e = .structural (.duplicateAttribute a.name cls.name path cls.startLine) := by
  unfold extract at h
  dsimp only at h
  split at h
  next n hTwice =>
    obtain ⟨_, hNever | hTwice⟩ := sublist_of_firstRepeated? hTwice
    · cases hNever
    · obtain ⟨a, b, hRepeated, rfl⟩ := exists_repeated hTwice
      exact ⟨a, b, hRepeated, (Except.error.inj h).symm⟩
  next => cases h

theorem name_of_wiring? {wired : String × SymbolMap} (h : wiring? a = some wired) : wired.1 = a.name := by
  unfold wiring? at h
  split at h
  next => cases h
  next =>
    dsimp only at h
    split at h
    next => cases h
    next => rw [← Option.some.inj h]

theorem extract_eq_ok {extraction : Extraction} (h : x.extract path cls = .ok extraction) :
    (∀ a b, ¬ x.Repeated cls a b) ∧
      extraction.attributes.entries = (x.collected cls).filterMap wiring? := by
  unfold extract at h
  dsimp only at h
  split at h
  next => cases h
  next hOnce =>
    have hNodup := (firstRepeated?_eq_none_iff.mp hOnce).1
    obtain rfl := Except.ok.inj h
    refine ⟨fun a b hRepeated => List.nodup_iff_sublist.mp hNodup _ (sublist_collected hRepeated), ?_⟩
    apply OrderedMap.entries_ofList
    exact hNodup.sublist (sublist_map_filterMap fun a _ _ => name_of_wiring?)

theorem wiring?_reordered (h : a.Reordered b) : b.name = a.name ∧ wiring? b = wiring? a := by
  cases h with
  | refl => exact ⟨rfl, rfl⟩
  | list name hItems => simp [wiring?, AttributeDeclaration.items?, hItems.symbols_eq]

theorem collected_reordered {attributes : List AttributeDeclaration}
    (h : List.Forall₂ AttributeDeclaration.Reordered cls.attributes attributes) :
    (x.collected { cls with attributes := attributes }).map (·.name) = (x.collected cls).map (·.name) ∧
      (x.collected { cls with attributes := attributes }).filterMap wiring? =
        (x.collected cls).filterMap wiring? := by
  unfold collected
  dsimp only
  generalize cls.attributes = as at h
  induction h with
  | nil => exact ⟨rfl, rfl⟩
  | cons hHere _ ih =>
    obtain ⟨hName, hWiring⟩ := wiring?_reordered hHere
    obtain ⟨hNames, hRest⟩ := ih
    rw [List.filter_cons, List.filter_cons, hName]
    split
    · simp only [List.map_cons, List.filterMap_cons, hName, hWiring, hNames, hRest, and_self]
    · exact ⟨hNames, hRest⟩

theorem extract_reordered {attributes : List AttributeDeclaration}
    (h : List.Forall₂ AttributeDeclaration.Reordered cls.attributes attributes) :
    x.extract path { cls with attributes := attributes } = x.extract path cls := by
  obtain ⟨hNames, hWiring⟩ := collected_reordered (x := x) h
  unfold extract
  simp only [hNames, hWiring]

end Extractor

namespace Merge

variable {x : Extractor} {rules : AttributeRules} {transform : Transform} {items : List ListItem}
  {annotations : List Annotation} {as : List AttributeDeclaration}

/-- The annotations for the symbols of a list, in ascending order, each symbol with the type that is
decided for it. -/
structure Rendered (transform : Transform) (items : List ListItem) (annotations : List Annotation) :
    Prop where
  ascending : annotations.Pairwise fun a b => a.symbol < b.symbol
  mem_iff : ∀ a, a ∈ annotations ↔
    ∃ ty, Wiring.Decides items a.symbol ty ∧ a.typeName = transform.apply (stripPlugin ty)

/-- The annotations for attributes in the order of their declaration; an attribute without a rule or
without a list has none. -/
inductive Documents (rules : AttributeRules) : List AttributeDeclaration → List Annotation → Prop where
  | nil : Documents rules [] []
  | listed {name : String} {items : List ListItem} {transform : Transform}
      {as : List AttributeDeclaration} {here later : List Annotation} :
      rules.find? name = some transform → Rendered transform items here → Documents rules as later →
      Documents rules (⟨name, some (.list items)⟩ :: as) (here ++ later)
  | passed {a : AttributeDeclaration} {as : List AttributeDeclaration} {later : List Annotation} :
      (rules.find? a.name = none ∨ ∀ items, a.value ≠ some (.list items)) → Documents rules as later →
      Documents rules (a :: as) later

theorem Rendered.unique {l l' : List Annotation} (h : Rendered transform items l)
    (h' : Rendered transform items l') : l = l' :=
  eq_of_ascending h.ascending h'.ascending fun a => (h.mem_iff a).trans (h'.mem_iff a).symm

theorem Documents.unique {l l' : List Annotation} (h : Documents rules as l)
    (h' : Documents rules as l') : l = l' := by
  induction h generalizing l' with
  | nil => cases h'; rfl
  | listed hRule hHere _ ih =>
    cases h' with
    | listed hRule' hHere' hLater' =>
      obtain rfl := Option.some.inj (hRule.symm.trans hRule')
      rw [hHere.unique hHere', ih hLater']
    | passed hPassed _ =>
      rcases hPassed with hNone | hOther
      · rw [hRule] at hNone
        cases hNone
      · exact absurd rfl (hOther _)
  | passed hPassed _ ih =>
    cases h' with
    | listed hRule _ _ =>
      rcases hPassed with hNone | hOther
      · rw [hRule] at hNone
        cases hNone
      · exact absurd rfl (hOther _)
    | passed _ hLater' => exact ih hLater'

theorem rendered_symbols (transform : Transform) (items : List ListItem) : Rendered transform items
    ((Wiring.symbols items).entries.map fun e => ⟨transform.apply e.2, e.1⟩) := by
  constructor
  · exact List.pairwise_map.mpr (List.pairwise_map.mp (Wiring.symbols items).sorted)
  · rintro ⟨typeName, symbol⟩
    rw [List.mem_map]
    constructor
    · rintro ⟨⟨_, short⟩, hEntry, hSame⟩
      obtain ⟨rfl, rfl⟩ := Annotation.mk.inj hSame
      obtain ⟨ty, hDecides, rfl⟩ :=
        Wiring.find?_symbols_eq_some_iff.mp (SortedMap.find?_eq_some_iff.mpr hEntry)
      exact ⟨ty, hDecides, rfl⟩
    · rintro ⟨ty, hDecides, hType⟩
      have hFound := Wiring.find?_symbols_eq_some_iff.mpr ⟨ty, hDecides, rfl⟩
      exact ⟨_, SortedMap.find?_eq_some_iff.mp hFound, by rw [← hType]⟩

theorem render_eq (h : ∀ name ∈ rules.keys, x.knows name = true) (extraction : Extraction) :
    render x extraction rules = .ok (extraction.attributes.entries.flatMap (ofAttribute rules)) := by
  have hNone : rules.keys.find? (fun name => !x.knows name) = none := by
    rw [List.find?_eq_none]
    intro name hName
    simp [h name hName]
  unfold render
  rw [hNone]

theorem Documents.cons {later : List Annotation} (h : Documents rules as later)
    (a : AttributeDeclaration) :
    Documents rules (a :: as) ((Extractor.wiring? a).toList.flatMap (ofAttribute rules) ++ later) := by
  cases hRule : rules.find? a.name with
  | none =>
    have hNone : (Extractor.wiring? a).toList.flatMap (ofAttribute rules) = [] := by
      rw [List.flatMap_eq_nil_iff]
      intro wired hWired
      rw [ofAttribute, Extractor.name_of_wiring? (Option.mem_toList.mp hWired), hRule]
    rw [hNone]
    exact .passed (.inl hRule) h
  | some transform =>
    rcases a with ⟨name, _ | _ | items | _⟩
    case some.list =>
      have hListed : (Extractor.wiring? ⟨name, some (.list items)⟩).toList.flatMap (ofAttribute rules) =
          (Wiring.symbols items).entries.map fun e => ⟨transform.apply e.2, e.1⟩ := by
        by_cases hEmpty : (Wiring.symbols items).entries = []
        · simp [Extractor.wiring?, AttributeDeclaration.items?, SortedMap.isEmpty, hEmpty]
        · simp [Extractor.wiring?, AttributeDeclaration.items?, SortedMap.isEmpty, hEmpty, ofAttribute,
            hRule]
      rw [hListed]
      exact .listed hRule (rendered_symbols transform items) h
    all_goals exact .passed (.inr fun _ => by simp) h

theorem documents_extracted (h : ∀ name ∈ rules.keys, x.knows name = true)
    (as : List AttributeDeclaration) : Documents rules as
      (((as.filter fun a => x.knows a.name).filterMap Extractor.wiring?).flatMap (ofAttribute rules)) := by
  induction as with
  | nil => exact .nil
  | cons a as ih =>
    rw [List.filter_cons]
    split
    next =>
      have hSplit (l : List AttributeDeclaration) : (a :: l).filterMap Extractor.wiring? =
          (Extractor.wiring? a).toList ++ l.filterMap Extractor.wiring? := by
        cases hWired : Extractor.wiring? a <;> simp [hWired]
      rw [hSplit, List.flatMap_append]
      exact ih.cons a
    next hUnknown =>
      -- An attribute that is not collected cannot have a rule.
      refine .passed (.inl ?_) ih
      rw [← Option.not_isSome_iff_eq_none, OrderedMap.isSome_find?_iff]
      exact fun hKey => hUnknown (h a.name hKey)

/-- Extraction fails exactly on a class that declares one attribute of the vocabulary twice.  Otherwise
the annotations are those that the attributes document, and the order of items for different symbols
makes no difference. -/
theorem extract_documents {names : List String} {rules : AttributeRules}
    (hNames : ∀ name ∈ rules.keys, name ∈ names) (path : Path) (cls : ClassNode) :
    ((∃ e, (Extractor.ofNames names).extract path cls = .error e) ↔
      ∃ a b, [a, b].Sublist cls.attributes ∧ a.name = b.name ∧ a.name ∈ names) ∧
    (∀ e, (Extractor.ofNames names).extract path cls = .error e → ∃ a b,
      [a, b].Sublist cls.attributes ∧ a.name = b.name ∧ a.name ∈ names ∧
        e = .structural (.duplicateAttribute a.name cls.name path cls.startLine)) ∧
    (∀ extraction, (Extractor.ofNames names).extract path cls = .ok extraction → ∃ annotations,
      render (.ofNames names) extraction rules = .ok annotations ∧
        ∀ l, Documents rules cls.attributes l ↔ l = annotations) ∧
    ∀ attributes, List.Forall₂ AttributeDeclaration.Reordered cls.attributes attributes →
      (Extractor.ofNames names).extract path { cls with attributes := attributes } =
          (Extractor.ofNames names).extract path cls ∧
        ∀ remove u extraction,
          merge (.ofNames names) remove u { cls with attributes := attributes } extraction rules =
            merge (.ofNames names) remove u cls extraction rules := by
  have hKnown {name : String} : (Extractor.ofNames names).knows name = true ↔ name ∈ names :=
    NameSet.contains_ofNames
  have hRules : ∀ name ∈ rules.keys, (Extractor.ofNames names).knows name = true :=
    fun name hName => hKnown.mpr (hNames name hName)
  have hError : ∀ e, (Extractor.ofNames names).extract path cls = .error e → ∃ a b,
      [a, b].Sublist cls.attributes ∧ a.name = b.name ∧ a.name ∈ names ∧
        e = .structural (.duplicateAttribute a.name cls.name path cls.startLine) := by
    intro e hExtract
    obtain ⟨a, b, hRepeated, hFault⟩ := Extractor.extract_eq_error hExtract
    exact ⟨a, b, hRepeated.both, hRepeated.same, hKnown.mp hRepeated.known, hFault⟩
  refine ⟨⟨?_, ?_⟩, hError, ?_, ?_⟩
  · rintro ⟨e, hExtract⟩
    obtain ⟨a, b, hBoth, hSame, hName, _⟩ := hError e hExtract
    exact ⟨a, b, hBoth, hSame, hName⟩
  · rintro ⟨a, b, hBoth, hSame, hName⟩
    cases hExtract : (Extractor.ofNames names).extract path cls with
    | error e => exact ⟨e, rfl⟩
    | ok extraction =>
      exact absurd ⟨hBoth, hSame, hKnown.mpr hName⟩ ((Extractor.extract_eq_ok hExtract).1 a b)
  · intro extraction hExtract
    have hDocuments := documents_extracted hRules cls.attributes
    rw [render_eq hRules, (Extractor.extract_eq_ok hExtract).2]
    refine ⟨_, rfl, fun l => ⟨fun h => h.unique hDocuments, ?_⟩⟩
    rintro rfl
    exact hDocuments
  · intro attributes hReordered
    exact ⟨Extractor.extract_reordered hReordered, fun _ _ _ => rfl⟩

/-- Two items for one symbol, the later with a type of its own, and an item that wires nothing. -/
def toolbarItems : List ListItem :=
  [.bare (.string "DebugKit.Toolbar"),
    .keyed (.string "Toolbar") (.list [.bare .other, Wiring.typeItem "Kit.Bar", Wiring.typeItem "Foo"]),
    .keyed (.string "Cookie") .other]

def toolbarClass : ClassNode :=
  ⟨"A", some "Controller", 2, none, [⟨"uses", some (.list [.bare (.string "Post")])⟩,
    ⟨"components", some (.list (.bare (.string "Session") :: .bare (.string "Z.Acl") :: toolbarItems))⟩]⟩

def componentRules : AttributeRules :=
  OrderedMap.ofList [("components", .appendSuffix "Component")]

/-- The class with one of its attributes declared again, without a value. -/
def twiceClass : ClassNode :=
  { toolbarClass with attributes := toolbarClass.attributes ++ [⟨"uses", none⟩] }

theorem extract_documents_toolbar :
    (∀ name ∈ componentRules.keys, name ∈ ["components", "uses"]) ∧
    Documents componentRules toolbarClass.attributes
      [⟨"AclComponent", "Acl"⟩, ⟨"SessionComponent", "Session"⟩, ⟨"BarComponent", "Toolbar"⟩] ∧
    ∃ e, (Extractor.ofNames ["components", "uses"]).extract ⟨"a.php"⟩ twiceClass = .error e := by
  have hNames : ∀ name ∈ componentRules.keys, name ∈ ["components", "uses"] := by decide +kernel
  have hExtract : (Extractor.ofNames ["components", "uses"]).extract ⟨"a.php"⟩ toolbarClass =
      .ok ⟨⟨⟨"a.php"⟩, 2⟩, OrderedMap.ofList [("uses", SortedMap.ofList [("Post", "Post")]),
        ("components", SortedMap.ofList [("Acl", "Acl"), ("Session", "Session"), ("Toolbar", "Bar")])]⟩ := by
    decide +kernel
  obtain ⟨_, _, hRendered, _⟩ := extract_documents hNames ⟨"a.php"⟩ toolbarClass
  obtain ⟨annotations, hRender, hDocuments⟩ := hRendered _ hExtract
  have hTwice : [⟨"uses", some (.list [.bare (.string "Post")])⟩, ⟨"uses", none⟩].Sublist
      twiceClass.attributes := by simp [twiceClass, toolbarClass]
  refine ⟨hNames, (hDocuments _).mpr (Except.ok.inj (.trans ?_ hRender)),
    (extract_documents hNames ⟨"a.php"⟩ twiceClass).1.mpr ⟨_, _, hTwice, rfl, by simp⟩⟩
  decide +kernel

end Merge

end DocWiring
