import DocWiring.Proofs.Php.Cutting
import DocWiring.Proofs.Php.Renewed

/-! # The parser keeps to its laws

The tree of a text has all of its lexemes in it and follows the grammar.  A comment that comes into the
white space before a class is cut as a lexeme of its own, and passed over like the white space was.
-/

namespace DocWiring.Php

open DocBlock (closing Unclosed)

/-! ## Refilled trees follow the grammar -/

theorem Exchange.sound {old new : List Node} (h : Exchange old new) :
    ∀ n ∈ new, ∀ m ∈ n.nodes, m.Sound := by
  have hGap (text : List Char) : (Node.gap text).Sound := by
    refine ⟨?_, ?_, ?_, ?_, ?_⟩ <;> simp [Node.kind, Node.label?, Node.closedKinds, Node.valueKinds, Node.isClass]
  have hComment {body : List Char} (hBody : Unclosed body) :
      (Node.leaf .comment ('/' :: '*' :: (body ++ closing))).Sound := by
    refine ⟨fun _ m hm => ?_, fun _ part hPart => absurd hPart List.not_mem_nil,
      fun _ => closesLast_of_unclosed hBody, fun hClass => ?_, fun hClass => ?_⟩
    · rw [List.mem_singleton.mp hm]
      rfl
    · cases hClass
    · cases hClass
  cases h with
  | put _ hBody | swap _ _ hBody =>
    intro n hn m hm
    simp only [List.mem_cons, List.not_mem_nil, or_false] at hn
    rcases hn with rfl | rfl | rfl
    · exact List.mem_singleton.mp hm ▸ hGap _
    · exact List.mem_singleton.mp hm ▸ hComment hBody
    · exact List.mem_singleton.mp hm ▸ hGap _

namespace Refilled

open Node

variable {n n' : Node}

theorem sound (h : Refilled n n') (hRegular : n.Regular) : n'.Sound := by
  have hSound := hRegular.sound
  have hOpen := h.not_closed hSound
  have hClass : n'.isClass = n.isClass := by rw [isClass, h.kind_eq, isClass]
  refine ⟨fun hKind => absurd (h.kind_eq ▸ hKind) hOpen, fun hKind => ?_, fun hKind => ?_,
    fun hDeclares => ?_, fun hDeclares => ?_⟩
  · have hApart := hSound.apart (h.kind_eq ▸ hKind)
    cases h with
    | here _ _ hChild =>
      rw [hApart _ (by simp [parts])] at hChild
      cases hChild
    | @inside label front back child child' hInner =>
      have hSame : child'.isClass = child.isClass := by rw [isClass, hInner.kind_eq, isClass]
      simpa only [parts, List.mem_append, List.mem_cons, forall_eq_or_imp, or_imp, forall_and, hSame,
        forall_eq] using hApart
  · exact absurd (by rw [← h.kind_eq, hKind]; decide) hOpen
  · have hName := Renewed.rel_childByField? ⟨hRegular, .inr h⟩ "name"
    have hNames := hSound.name (hClass ▸ hDeclares)
    generalize n.childByField? "name" = name, n'.childByField? "name" = name' at hName hNames ⊢
    cases hName with
    | none => simp
    | some hSame =>
      intro part hPart
      rw [← Option.mem_some.mp hPart, hSame.kind_eq]
      exact hNames _ rfl
  · rw [h.head?_text]
    exact hSound.start (hClass ▸ hDeclares)

/-- A refilled tree follows the grammar if the tree does. -/
theorem regular (h : Refilled n n') (hRegular : n.Regular) : n'.Regular := by
  induction h with
  | @here label front old new near back child hExchange hLoose hClass =>
    intro m hm
    rcases List.mem_cons.mp hm with rfl | hm
    · exact sound (.here hExchange hLoose hClass) hRegular
    · obtain ⟨part, hPart, hMem⟩ := mem_nodesAll_iff.mp hm
      simp only [List.mem_append] at hPart
      rcases hPart with hPart | hPart | hPart
      · exact hRegular.part (by simp [hPart]) m hMem
      · exact hExchange.sound part hPart m hMem
      · exact hRegular.part (List.mem_append_right _ (List.mem_append_right _ (List.mem_append.mpr hPart))) m hMem
  | @inside label front back child child' hInner hNamed ih =>
    intro m hm
    rcases List.mem_cons.mp hm with rfl | hm
    · exact sound (.inside hInner hNamed) hRegular
    · obtain ⟨part, hPart, hMem⟩ := mem_nodesAll_iff.mp hm
      simp only [List.mem_append, List.mem_cons] at hPart
      rcases hPart with hPart | rfl | hPart
      · exact hRegular.part (by simp [hPart]) m hMem
      · exact ih (hRegular.part (by simp)) m hMem
      · exact hRegular.part (by simp [hPart]) m hMem

/-! ## Refilled trees have the same tokens -/

theorem isPassed_of_isLoose {n : Node} (h : n.isLoose = true) : n.isPassed = true := by
  cases n with
  | gap => rfl
  | leaf label =>
    obtain rfl : label = Label.comment := by simpa [isLoose] using h
    rfl
  | branch => cases h

theorem isPassed_eq_false (h : Refilled n n') : n.isPassed = false ∧ n'.isPassed = false := by
  cases h <;> exact ⟨rfl, rfl⟩

theorem bare_eq (h : Refilled n n') : bareAll n'.parts = bareAll n.parts ∧ n'.bare = n.bare := by
  induction h with
  | here hExchange =>
    have hOld := bareAll_of_isPassed fun n hn => isPassed_of_isLoose (hExchange.isLoose_old n hn)
    have hNew := bareAll_of_isPassed fun n hn => isPassed_of_isLoose (hExchange.isLoose_new n hn)
    have hAll (front rest : List Node) {old new : List Node} (hOld : bareAll old = [])
        (hNew : bareAll new = []) : bareAll (front ++ (new ++ rest)) = bareAll (front ++ (old ++ rest)) := by
      simp only [bareAll_append, hOld, hNew]
    exact ⟨hAll _ _ hOld hNew, congrArg (branch _) (hAll _ _ hOld hNew)⟩
  | @inside label front back child child' hInner _ ih =>
    obtain ⟨hChild, hChild'⟩ := hInner.isPassed_eq_false
    have hAll : bareAll (front ++ child' :: back) = bareAll (front ++ child :: back) := by
      rw [bareAll_append, bareAll_append, bareAll, bareAll, hChild, hChild', ih.2]
    exact ⟨hAll, congrArg (branch label) hAll⟩

theorem allTight_of_isLoose {ns : List Node} (h : ∀ n ∈ ns, n.isLoose = true) : allTight ns = true := by
  induction ns with
  | nil => rfl
  | cons n ns ih =>
    obtain ⟨hn, hRest⟩ := List.forall_mem_cons.mp h
    rw [allTight, ih hRest]
    cases n with
    | gap | leaf => rfl
    | branch => cases hn

/-- Every node still begins and ends with a token. -/
theorem tight (h : Refilled n n') :
    (allTight n.parts = true → allTight n'.parts = true) ∧ (n.isTight = true → n'.isTight = true) := by
  induction h with
  | @here label front old new near back child hExchange hLoose hClass =>
    have hInner (hTight : allTight (front ++ (old ++ (near ++ child :: back))) = true) :
        allTight (front ++ (new ++ (near ++ child :: back))) = true := by
      simp only [allTight_append, Bool.and_eq_true] at hTight ⊢
      exact ⟨hTight.1, allTight_of_isLoose hExchange.isLoose_new, hTight.2.2⟩
    refine ⟨hInner, fun hTight => ?_⟩
    simp only [isTight, Bool.and_eq_true] at hTight ⊢
    obtain ⟨⟨hHead, hLast⟩, hTight⟩ := hTight
    have hLast' (ms : List Node) : (front ++ (ms ++ (near ++ child :: back))).getLast? =
        (child :: back).getLast? := by
      simp [List.getLast?_append, List.getLast?_cons]
    refine ⟨⟨?_, by rwa [hLast'] at hLast ⊢⟩, hInner hTight⟩
    cases front with
    | nil =>
      obtain ⟨n, rest, rfl⟩ := List.exists_cons_of_ne_nil hExchange.old_ne_nil
      have hPassed := isPassed_of_isLoose (hExchange.isLoose_old n List.mem_cons_self)
      simp [hPassed] at hHead
    | cons n front => exact hHead
  | @inside label front back child child' hInner _ ih =>
    obtain ⟨hChild, hChild'⟩ := hInner.isPassed_eq_false
    have hAll (hTight : allTight (front ++ child :: back) = true) :
        allTight (front ++ child' :: back) = true := by
      simp only [allTight_append, allTight, Bool.and_eq_true] at hTight ⊢
      exact ⟨hTight.1, ih.2 hTight.2.1, hTight.2.2⟩
    refine ⟨hAll, fun hTight => ?_⟩
    simp only [isTight, Bool.and_eq_true] at hTight ⊢
    obtain ⟨⟨hHead, hLast⟩, hTight⟩ := hTight
    refine ⟨⟨?_, ?_⟩, hAll hTight⟩
    · cases front with
      | nil => simp [hChild']
      | cons => exact hHead
    · cases back with
      | nil => simp [hChild']
      | cons => simpa [List.getLast?_append, List.getLast?_cons] using hLast

theorem fringeAll_of_isLoose {ns : List Node} (h : ∀ n ∈ ns, n.isLoose = true) : fringeAll ns = ns := by
  induction ns with
  | nil => rfl
  | cons n ns ih =>
    obtain ⟨hn, hRest⟩ := List.forall_mem_cons.mp h
    rw [fringeAll, ih hRest, fringe_of_isPassed (isPassed_of_isLoose hn), List.singleton_append]

/-- One exchange tells the leaves and gaps apart. -/
theorem exists_fringe (h : Refilled n n') : ∃ front old new back, Exchange old new ∧
    n.fringe = front ++ (old ++ back) ∧ n'.fringe = front ++ (new ++ back) := by
  induction h with
  | @here label front old new near back child hExchange =>
    refine ⟨fringeAll front, old, new, fringeAll (near ++ child :: back), hExchange, ?_, ?_⟩
    · rw [fringe, fringeAll_append, fringeAll_append, fringeAll_of_isLoose hExchange.isLoose_old]
    · rw [fringe, fringeAll_append, fringeAll_append, fringeAll_of_isLoose hExchange.isLoose_new]
  | @inside label front back child child' _ _ ih =>
    obtain ⟨ahead, old, new, rest, hExchange, hOld, hNew⟩ := ih
    refine ⟨fringeAll front ++ ahead, old, new, rest ++ fringeAll back, hExchange, ?_, ?_⟩
    · rw [fringe, fringeAll_append, fringeAll, hOld]
      simp
    · rw [fringe, fringeAll_append, fringeAll, hNew]
      simp

end Refilled

/-! ## Refilled texts are cut in the same way -/

theorem lexed_core {inner : List Mode} {s t body : List Char} {ls : List Lexeme}
    (hCode : InCode inner) (hs : s ≠ []) (ht : t ≠ []) (hSpace : ∀ c ∈ s, isSpace c = true)
    (hSpace' : ∀ c ∈ t, isSpace c = true) (hBody : Unclosed body)
    (hStop : ∀ c ∈ (textOf ls).head?, isSpace c = false) (hRest : Lexed inner (textOf ls) ls) :
    Lexed inner (textOf (⟨.blank, s⟩ :: ⟨.comment, '/' :: '*' :: (body ++ closing)⟩ :: ⟨.blank, t⟩ :: ls))
      (⟨.blank, s⟩ :: ⟨.comment, '/' :: '*' :: (body ++ closing)⟩ :: ⟨.blank, t⟩ :: ls) := by
  refine .cons (step?_blank hCode hs hSpace ?_) hs
    (.cons (step?_comment hCode hBody _) (by simp) (.cons (step?_blank hCode ht hSpace' hStop) ht hRest))
  intro c hc
  obtain rfl : '/' = c := by simpa using hc
  decide

theorem Lexeme.eq_of_makes_gap {l : Lexeme} {text : List Char} (h : l.makes (.gap text) = true) :
    l = ⟨.blank, text⟩ := by
  obtain ⟨kind, t⟩ := l
  obtain ⟨hKind, hText⟩ := (Bool.and_eq_true _ _).mp h
  rw [beq_iff_eq] at hKind hText
  exact congrArg₂ _ hKind hText

theorem Lexeme.eq_of_makes_comment {l : Lexeme} {text : List Char}
    (h : l.makes (.leaf .comment text) = true) : l = ⟨.comment, text⟩ := by
  have hPassed : l.isPassed = true := (isPassed_of_makes h).symm
  obtain ⟨kind, t⟩ := l
  simp only [makes, hPassed, Bool.and_eq_true, if_true, beq_iff_eq, bne_iff_ne] at h
  obtain ⟨⟨rfl, hBlank⟩, hLabel⟩ := h
  cases kind with
  | blank => exact absurd rfl hBlank
  | comment => rfl
  | openTag => exact absurd (congrArg Label.kind hLabel) (by simp [label, Label.comment])
  | _ => simp [isPassed] at hPassed

theorem exists_of_makeAll_cons {ls : List Lexeme} {n : Node} {ns : List Node}
    (h : makeAll ls (n :: ns) = true) :
    ∃ l ms, ls = l :: ms ∧ l.makes n = true ∧ makeAll ms ns = true := by
  cases ls with
  | nil => cases h
  | cons l ms => exact ⟨l, ms, rfl, (Bool.and_eq_true _ _).mp h⟩

/-- A comment and white space in the place of some lexemes that code goes on after. -/
theorem Lexed.refill {front olds back : List Lexeme} {x z t y r body : List Char}
    (h : Lexed [.html] (textOf (front ++ (olds ++ back))) (front ++ (olds ++ back)))
    (hText : textOf olds = x ++ '\n' :: r) (hWhite : ∀ c ∈ x ++ z ++ (t ++ y), isSpace c = true)
    (hBody : Unclosed body)
    (hCore : ∀ inner, Lexed inner (textOf (olds ++ back)) (olds ++ back) → InCode inner ∧
      (∀ c ∈ (textOf back).head?, isSpace c = false) ∧ Lexed inner (textOf back) back) :
    Lexed [.html] (textOf (front ++ ([⟨.blank, x ++ '\n' :: z⟩,
        ⟨.comment, '/' :: '*' :: (body ++ closing)⟩, ⟨.blank, t ++ '\n' :: y⟩] ++ back)))
      (front ++ ([⟨.blank, x ++ '\n' :: z⟩, ⟨.comment, '/' :: '*' :: (body ++ closing)⟩,
        ⟨.blank, t ++ '\n' :: y⟩] ++ back)) := by
  have hSpaces {s s' : List Char} (hs : ∀ c ∈ s ++ s', isSpace c = true) :
      ∀ c ∈ s ++ '\n' :: s', isSpace c = true := by
    intro c hc
    rcases List.mem_append.mp hc with hc | hc
    · exact hs c (List.mem_append_left _ hc)
    · rcases List.mem_cons.mp hc with rfl | hc
      · decide
      · exact hs c (List.mem_append_right _ hc)
  refine h.replace (by simp [Mode.Plain]) (w := x) (r := r ++ textOf back) (by simp [hText])
    (by simp; rfl) fun inner _ hInner => ?_
  obtain ⟨hCode, hStop, hRest⟩ := hCore inner hInner
  exact lexed_core hCode (by simp) (by simp)
    (hSpaces fun c hc => hWhite c (List.mem_append_left _ hc))
    (hSpaces fun c hc => hWhite c (List.mem_append_right _ hc)) hBody hStop hRest

/-- The lexemes of an exchange, between any other lexemes. -/
theorem Exchange.exists_lexed {old new : List Node} (h : Exchange old new) {front olds back : List Lexeme}
    (hMakes : makeAll olds old = true)
    (hLexed : Lexed [.html] (textOf (front ++ (olds ++ back))) (front ++ (olds ++ back))) :
    ∃ news, makeAll news new = true ∧ (∀ l ∈ olds ++ news, l.isPassed = true) ∧
      Lexed [.html] (textOf (front ++ (news ++ back))) (front ++ (news ++ back)) := by
  cases h with
  | @put x y z t body hWhite hBody =>
    obtain ⟨l, _, rfl, hl, hNil⟩ := exists_of_makeAll_cons hMakes
    cases makeAll_iff.mp hNil
    obtain rfl := Lexeme.eq_of_makes_gap hl
    refine ⟨_, ?_, ?_, hLexed.refill (z := z) (t := t) (y := y) (by simp; rfl) ?_ hBody
      fun inner hInner => ?_⟩
    · simp [makeAll, Lexeme.makes, Lexeme.isPassed, Lexeme.label, Label.comment]
    · simp [Lexeme.isPassed]
    · intro c hc
      apply hWhite
      simp only [List.mem_append] at hc ⊢
      tauto
    · obtain ⟨hCode, _, _, hStop, hRest⟩ := hInner.of_blank
      exact ⟨hCode, hStop, hRest⟩
  | @swap x y z t z' t' old body hWhite hOpened hBody =>
    obtain ⟨l₁, _, rfl, hl₁, hMakes⟩ := exists_of_makeAll_cons hMakes
    obtain ⟨l₂, _, rfl, hl₂, hMakes⟩ := exists_of_makeAll_cons hMakes
    obtain ⟨l₃, _, rfl, hl₃, hNil⟩ := exists_of_makeAll_cons hMakes
    cases makeAll_iff.mp hNil
    obtain rfl := Lexeme.eq_of_makes_gap hl₁
    obtain rfl := Lexeme.eq_of_makes_comment hl₂
    obtain rfl := Lexeme.eq_of_makes_gap hl₃
    obtain ⟨rest, hOld⟩ := hOpened
    replace hOld : '/' :: '*' :: rest = old := hOld
    subst hOld
    refine ⟨_, ?_, ?_, hLexed.refill (z := z') (t := t') (y := y) (by simp; rfl) ?_ hBody
      fun inner hInner => ?_⟩
    · simp [makeAll, Lexeme.makes, Lexeme.isPassed, Lexeme.label, Label.comment]
    · simp [Lexeme.isPassed]
    · intro c hc
      apply hWhite
      simp only [List.mem_append] at hc ⊢
      tauto
    · obtain ⟨hCode, _, _, _, hComment⟩ := hInner.of_blank
      obtain ⟨_, _, hBlank⟩ := hComment.of_comment
      obtain ⟨_, _, _, hStop, hRest⟩ := hBlank.of_blank
      exact ⟨hCode, hStop, hRest⟩

/-! ## The laws -/

/-- A text is cut into these lexemes, and its tree is built of them. -/
structure Built (text : List Char) (ls : List Lexeme) (parts : List Node) : Prop where
  lexed : Lexed [.html] text ls
  makes : makeAll ls (Node.fringeAll parts) = true
  statements : program (ls.filter fun l => !l.isPassed) = .ok (Node.bareAll parts)
  tight : Node.allTight parts = true
  regular : (fileNode parts).Regular

namespace Built

variable {text : List Char} {ls : List Lexeme} {parts : List Node}

theorem text_eq (h : Built text ls parts) : (fileNode parts).text = text := by
  rw [← h.lexed.textOf_eq, ← textAll_of_makeAll h.makes, Node.textAll_fringeAll]
  rfl

theorem parseText_eq (h : Built text ls parts) : parseText text = fileNode parts := by
  have hCut : lexemes text = ⟨ls, true⟩ := lexemes_eq_iff.mpr h.lexed
  obtain ⟨hParts, hRest⟩ := Node.dressAll_bareAll_file h.tight h.makes
  simp only [parseText, hCut, if_true, treeOf, h.statements, hParts]
  rw [if_pos]
  have hFringe : makeAll ls (fileNode parts).fringe = true := h.makes
  have hTight : Node.allTight (fileNode parts).parts = true := h.tight
  simp [Node.allBare_bareAll, hFringe, hTight, h.regular, List.all_eq_true.mpr hRest]

theorem refilled (h : Built text ls parts) {root : Node} (hRefilled : Refilled (fileNode parts) root) :
    ∃ ls' parts', root = fileNode parts' ∧ Built root.text ls' parts' := by
  obtain ⟨parts', rfl⟩ : ∃ parts', root = fileNode parts' := by
    cases hRefilled <;> exact ⟨_, rfl⟩
  obtain ⟨front, old, new, back, hExchange, hOld, hNew⟩ := hRefilled.exists_fringe
  replace hOld : Node.fringeAll parts = front ++ (old ++ back) := hOld
  replace hNew : Node.fringeAll parts' = front ++ (new ++ back) := hNew
  have hMakes := h.makes
  rw [hOld] at hMakes
  obtain ⟨fronts, _, rfl, hFront, hMakes⟩ := exists_of_makeAll_append hMakes
  obtain ⟨olds, backs, rfl, hOlds, hBack⟩ := exists_of_makeAll_append hMakes
  have hLexed := h.lexed
  rw [← hLexed.textOf_eq] at hLexed
  obtain ⟨news, hNews, hPassed, hLexed'⟩ := hExchange.exists_lexed hOlds hLexed
  have hMakes' : makeAll (fronts ++ (news ++ backs)) (Node.fringeAll parts') = true := by
    rw [hNew]
    exact makeAll_append hFront (makeAll_append hNews hBack)
  have hText : (fileNode parts').text = textOf (fronts ++ (news ++ backs)) := by
    rw [← textAll_of_makeAll hMakes', Node.textAll_fringeAll]
    rfl
  have hTokens : (fronts ++ (news ++ backs)).filter (fun l => !l.isPassed) =
      (fronts ++ (olds ++ backs)).filter fun l => !l.isPassed := by
    have hNone {ms : List Lexeme} (hms : ∀ l ∈ ms, l.isPassed = true) :
        ms.filter (fun l => !l.isPassed) = [] := by
      rw [List.filter_eq_nil_iff]
      intro l hl
      simp [hms l hl]
    rw [List.filter_append, List.filter_append, List.filter_append, List.filter_append,
      hNone fun l hl => hPassed l (List.mem_append_right _ hl),
      hNone fun l hl => hPassed l (List.mem_append_left _ hl)]
  refine ⟨fronts ++ (news ++ backs), parts', rfl, hText ▸ hLexed', hMakes', ?_, ?_, ?_⟩
  · rw [hTokens, h.statements]
    exact congrArg Except.ok hRefilled.bare_eq.1.symm
  · exact hRefilled.tight.1 h.tight
  · exact hRefilled.regular h.regular

end Built

theorem exists_built {text : List Char} (h : (parseText text).hasFault = false) :
    ∃ ls parts, parseText text = fileNode parts ∧ Built text ls parts := by
  unfold parseText at h ⊢
  dsimp only at h ⊢
  split at h
  next hComplete =>
    rw [if_pos hComplete]
    have hLexed : Lexed [.html] text (lexemes text).lexemes :=
      lexemes_eq_iff.mp (by rw [← hComplete])
    generalize (lexemes text).lexemes = ls at h hLexed ⊢
    unfold treeOf at h ⊢
    split at h
    next => cases h
    next statements hStatements =>
      dsimp only at h ⊢
      split at h
      next hChecks =>
        rw [if_pos hChecks]
        simp only [Bool.and_eq_true, decide_eq_true_eq] at hChecks
        obtain ⟨⟨⟨⟨hRest, hBare⟩, hTight⟩, hMakes⟩, hRegular⟩ := hChecks
        have hPassed : ∀ n ∈ (Node.dressAll statements ls).2.map Lexeme.piece, n.isPassed = true := by
          intro n hn
          obtain ⟨l, hl, rfl⟩ := List.mem_map.mp hn
          exact Lexeme.isPassed_piece (List.all_eq_true.mp hRest l hl)
        refine ⟨ls, _, rfl, hLexed, hMakes, ?_, hTight, hRegular⟩
        rw [Node.bareAll_append, Node.bareAll_dressAll _ hBare, Node.bareAll_of_isPassed hPassed,
          List.append_nil, hStatements]
      next => cases h
  next => cases h

theorem parser_lawful : parser.Lawful := by
  have hBuilt {text : List Char} {root : Node} (h : parser.Accepts text root) :
      ∃ ls parts, root = fileNode parts ∧ Built text ls parts := by
    obtain rfl := Option.some.inj h.parsed
    exact exists_built h.faultless
  refine ⟨⟨fun h => ?_, fun h => ?_⟩, fun h hRefilled => ?_⟩
  · obtain ⟨_, _, rfl, hBuilt⟩ := hBuilt h
    exact hBuilt.text_eq
  · obtain ⟨_, _, rfl, hBuilt⟩ := hBuilt h
    exact hBuilt.regular
  · obtain ⟨_, _, rfl, hBuilt⟩ := hBuilt h
    obtain ⟨_, _, rfl, hAgain⟩ := hBuilt.refilled hRefilled
    exact congrArg some hAgain.parseText_eq

end DocWiring.Php
