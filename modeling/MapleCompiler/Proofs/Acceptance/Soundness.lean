import MapleCompiler.Proofs.Acceptance.Simple
import MapleCompiler.Proofs.Reading.Blocks
import MapleCompiler.Proofs.Token.Vocabulary

/-!
# Programs that are read are acceptable

The readers of statements with a body are given the reader of bodies. If all
that it gives is acceptable (`Read.BodySound`), so is what they give; lists of
statements then follow by induction on the budget of their reader. Which word
closes a body is taken from the verdict at which its list stops.

Main statements: `Program.accepted_of_ofTokens`, for all lists of tokens, and
`Program.accepted_of_ofText`, for all texts.
-/

namespace MapleCompiler

namespace Read

variable {V : Vocabulary} {s s' : ReadState} {body : BodyReader} {ctx : Context}

/-! ## Bodies -/

/-- **A list of statements was read**: its nodes are acceptable, and it stops
at a token where the list around it ends. -/
structure Fills (V : Vocabulary) (ctx : Context) (e : Enclosure) (s : ReadState)
    (nodes : List Node) (s' : ReadState) : Prop where
  tokens : s'.Over V
  taken : s'.taken ≠ 0
  ends : e.verdict ctx.dialect s'.current = .ends
  accepts : ∃ part, part.isFinal = true ∧ Accepts V ctx .list s.facts nodes part s'.facts

/-- A reader of bodies that gives acceptable nodes. -/
def BodySound (V : Vocabulary) (body : BodyReader) : Prop :=
  ∀ {ctx : Context} {e : Enclosure} {s s' : ReadState} {nodes : List Node},
    body ctx e s = .ok nodes s' → s.Over V → s.taken ≠ 0 → Fills V ctx e s nodes s'

theorem taken_next (h : s.taken ≠ 0) : s.next.taken ≠ 0 := by
  have := s.taken_le_next
  omega

/-- `run` is the last statement of its list: its body stops only where that
list stops too, since it has no word of its own. -/
theorem gives_runStatement {nodes : List Node} (hbody : BodySound V body)
    (h : runStatement body ctx s = .ok nodes s') (hs : s.Over V) (hk : s.current.kind ≠ .eof) :
    Gives V ctx s .list nodes .last s' ∧
      (s'.current.kind = .eof ∨ s'.current.kind.isTerminator = true) := by
  obtain ⟨hknown, inner, hinner, rfl⟩ := runStatement_eq_ok.mp h
  have hq := (ReadState.Quiet.refl hs.next).next
  have hf := hbody hinner hq.tokens (taken_of_quiet hs hk hq)
  obtain ⟨part, hfinal, haccepts⟩ := hf.accepts
  have hcount := hs.next.known hknown
  rw [ReadState.facts_next, ReadState.facts_next] at haccepts
  rw [ReadState.next_scope] at hcount
  refine ⟨⟨hf.tokens, ?_, hf.taken, List.cons_ne_nil _ _⟩,
    Enclosure.verdict_run_eq_ends.mp hf.ends⟩
  exact .cons rfl hcount haccepts hfinal .nil

theorem gives_branches {budget : Nat} {nodes : List Node} (hbody : BodySound V body)
    (h : branches body ctx budget s = .ok nodes s') (hs : s.Over V) (htaken : s.taken ≠ 0) :
    Gives V ctx s .branches nodes .list s' := by
  induction budget generalizing s nodes with
  | zero => cases h
  | succ budget ih =>
    by_cases hif : s.current.kind = .elifWord
    · obtain ⟨c, s₁, inner, s₂, rest, hcond, hinner, hrest, rfl⟩ := (branches_elif_eq_ok hif).mp h
      obtain ⟨hq, hc⟩ := quiet_condition hcond hs.next
      have hf := hbody hinner hq.tokens (taken_of_quiet hs (hif ▸ nofun) hq)
      obtain ⟨part, hfinal, haccepts⟩ := hf.accepts
      have hg := ih hrest hf.tokens hf.taken
      rw [hq.facts, ReadState.facts_next] at haccepts
      rw [ReadState.next_scope] at hc
      refine ⟨hg.tokens, ?_, hg.taken, List.cons_ne_nil _ _⟩
      exact .cons rfl ⟨hs.has hif nofun, hc⟩ haccepts hfinal hg.accepts
    by_cases helse : s.current.kind = .elseWord
    · obtain ⟨inner, s₁, rest, hinner, hrest, rfl⟩ := (branches_else_eq_ok helse).mp h
      have hf := hbody hinner hs.next (taken_next htaken)
      obtain ⟨part, hfinal, haccepts⟩ := hf.accepts
      -- The body of `else` stops at `end` only, so no branch comes after it.
      have hend := List.mem_singleton.mp (Enclosure.verdict_closedBy_eq_ends.mp hf.ends)
      cases budget with
      | zero => cases hrest
      | succ budget =>
        obtain ⟨-, rfl, rfl⟩ := (branches_end_eq_ok (hend ▸ nofun) (hend ▸ nofun)).mp hrest
        rw [ReadState.facts_next] at haccepts
        refine ⟨hf.tokens.next, ?_, taken_next hf.taken, List.cons_ne_nil _ _⟩
        rw [ReadState.facts_next]
        exact .cons rfl (hs.has helse nofun) haccepts hfinal (.plain rfl rfl trivial)
    · obtain ⟨-, rfl, rfl⟩ := (branches_end_eq_ok hif helse).mp h
      exact .plain rfl rfl trivial hs.next (ReadState.facts_next s) (taken_next htaken)

theorem gives_ifStatement {nodes : List Node} (hbody : BodySound V body)
    (h : ifStatement body ctx s = .ok nodes s') (hs : s.Over V) (hk : s.current.kind ≠ .eof) :
    Gives V ctx s .list nodes .list s' := by
  obtain ⟨c, s₁, inner, s₂, rest, hcond, hinner, hrest, rfl⟩ := ifStatement_eq_ok.mp h
  obtain ⟨hq, hc⟩ := quiet_condition hcond hs.next
  have hf := hbody hinner hq.tokens (taken_of_quiet hs hk hq)
  obtain ⟨part, hfinal, haccepts⟩ := hf.accepts
  have hg := gives_branches hbody hrest hf.tokens hf.taken
  rw [hq.facts, ReadState.facts_next] at haccepts
  rw [ReadState.next_scope] at hc
  exact ⟨hg.tokens, .cons rfl hc haccepts hfinal hg.accepts, hg.taken, List.cons_ne_nil _ _⟩

/-- The word that closes a body is taken, and its bindings are gone. All else
that the body made known stays known. -/
theorem Fills.close {e : Enclosure} {nodes : List Node} (h : Fills V ctx e s nodes s') :
    ({ s' with scope := s'.scope.closeBlock } : ReadState).next.Over V ∧
      ({ s' with scope := s'.scope.closeBlock } : ReadState).next.taken ≠ 0 := by
  have hover : ({ s' with scope := s'.scope.closeBlock } : ReadState).Over V :=
    h.tokens.congr rfl rfl
  have htaken : ({ s' with scope := s'.scope.closeBlock } : ReadState).taken ≠ 0 := h.taken
  exact ⟨hover.next, taken_next htaken⟩

theorem gives_loopStatement {nodes : List Node} (hbody : BodySound V body)
    (h : loopStatement body ctx s = .ok nodes s') (hs : s.Over V) (hk : s.current.kind ≠ .eof) :
    Gives V ctx s .list nodes .list s' := by
  obtain ⟨hname, start, stop, s₁, inner, s₂, hbounds, hnew, hinner, rfl, rfl⟩ :=
    loopStatement_eq_ok.mp h
  obtain ⟨hq₁, hstart, hstop⟩ := quiet_bounds hbounds hs.next.next
  have hq := (ReadState.Quiet.refl hs.next).next.trans hq₁
  have hfacts : s₁.facts = s.facts := hq.facts.trans (ReadState.facts_next s)
  have hscope : s₁.scope = s.scope := congrArg Facts.scope hfacts
  have htaken : s₁.taken ≠ 0 := taken_of_quiet hs hk hq
  have hf := hbody hinner (hq.tokens.congr rfl rfl) htaken
  obtain ⟨part, hfinal, haccepts⟩ := hf.accepts
  rw [ReadState.facts_withScope, hfacts, hscope] at haccepts
  rw [hscope] at hnew
  rw [ReadState.next_scope, ReadState.next_scope] at hstart hstop
  refine ⟨hf.close.1, ?_, hf.close.2, List.cons_ne_nil _ _⟩
  rw [ReadState.facts_next, ReadState.facts_withScope]
  exact .cons rfl ⟨hs.next.word hname nofun, hnew, hstart, hstop⟩ haccepts hfinal
    (.plain rfl rfl trivial)

/-- The parameters of a function are words, with types that can be stored.
Both hold of the parameters so far, and reading one more keeps them. -/
theorem quiet_parameters {function : Token} {parameters : List (Token × ValueType)}
    (h : listUntil .colon "',' or ':'" (parameter function) s = .ok parameters s')
    (hs : s.Over V) :
    (∀ p ∈ parameters, V.word .identifier p.1.lexeme ∧ V.Has (.type p.2) ∧
      p.2.isStorable = true) ∧ s.Quiet V s' := by
  refine quiet_listUntil (fun items => ∀ p ∈ items, V.word .identifier p.1.lexeme ∧
    V.Has (.type p.2) ∧ p.2.isStorable = true) ?_ hs nofun h
  intro items s₁ p s₂ hitems hs₁ _ hread
  obtain ⟨htype, hstorable, hname, -, hp, rfl⟩ := parameter_eq_ok.mp hread
  refine ⟨fun q hq => ?_, (ReadState.Quiet.refl hs₁).next.next⟩
  obtain hq | hq := List.mem_append.mp hq
  · exact hitems q hq
  · rw [List.mem_singleton.mp hq, hp]
    exact ⟨hs₁.next.word hname nofun, hs₁.has htype nofun, hstorable⟩

theorem gives_functionStatement {nodes : List Node} (hbody : BodySound V body)
    (h : functionStatement body ctx s = .ok nodes s') (hs : s.Over V)
    (hk : s.current.kind ≠ .eof) : Gives V ctx s .list nodes .list s' := by
  obtain ⟨htop, signature, parameters, s₁, inner, s₂, htype, hname, hlexeme, -, hlist,
    hparameters, hnew, hfresh, hnodup, hinner, rfl, rfl⟩ := functionStatement_eq_ok.mp h
  obtain ⟨hwords, hq₁⟩ := quiet_parameters hlist hs.next.next.next.next
  have hq := (ReadState.Quiet.refl hs.next).next.next.next.trans hq₁
  have hfacts : s₁.facts = s.facts := hq.facts.trans (ReadState.facts_next s)
  have hscope : s₁.scope = s.scope := congrArg Facts.scope hfacts
  have htaken : s₁.taken ≠ 0 := taken_of_quiet hs hk hq
  have hf := hbody hinner (hq.tokens.congr rfl rfl) htaken
  obtain ⟨part, hfinal, haccepts⟩ := hf.accepts
  rw [ReadState.facts_withScope, hfacts, hscope] at haccepts
  rw [hscope] at hnew hfresh
  have hchecked : Node.ParametersChecked V (s.scope.declared signature.symbol)
      signature.parameters := by
    rw [← hparameters]
    constructor
    · rintro _ hmem
      obtain ⟨p, hp, rfl⟩ := List.mem_map.mp hmem
      obtain ⟨hword, hhas, hstorable⟩ := hwords p hp
      exact ⟨hword, hhas, hstorable, hfresh p hp⟩
    · rw [List.map_map]
      exact hnodup
  refine ⟨hf.close.1, ?_, hf.close.2, List.cons_ne_nil _ _⟩
  rw [ReadState.facts_next, ReadState.facts_withScope]
  exact .cons rfl ⟨htop, hs.next.has htype nofun, hlexeme ▸ hs.next.next.word hname nofun, hnew,
    hchecked⟩ haccepts hfinal .nil

/-! ## Lists of statements -/

/-- What may stand where a state is: at the beginning of a unit its namespace
may be opened. -/
def partOf (s : ReadState) : Part := if s.taken = 0 then .start else .list

theorem Gives.ofList {nodes : List Node} {part : Part} (h : Gives V ctx s .list nodes part s') :
    Gives V ctx s (partOf s) nodes part s' := by
  refine ⟨h.tokens, ?_, h.taken, h.nonempty⟩
  unfold partOf
  split
  · exact h.accepts.ofList h.nonempty
  · exact h.accepts

/-- **One statement.** Another may follow it, unless it was `run`, which stops
where the list around it does. By cases on the word it begins with, with the
lemma of its reader for each. -/
theorem gives_statement {nodes : List Node} (hbody : BodySound V body)
    (h : statement body ctx s = .ok nodes s') (hs : s.Over V) :
    Gives V ctx s (partOf s) nodes .list s' ∨
      Gives V ctx s (partOf s) nodes .last s' ∧
        (s'.current.kind = .eof ∨ s'.current.kind.isTerminator = true) := by
  unfold statement at h
  rw [bind_of_ok (seesCall_apply s)] at h
  split at h
  · next hcall =>
    have hk := current_of_startsCall hcall
    obtain ⟨node, hnode, rfl⟩ := single_eq_ok.mp h
    exact .inl (gives_callStatement hnode hs (hk ▸ nofun)).ofList
  rw [bind_of_ok (peek_apply s)] at h
  have hne {kind : TokenKind} (hk : s.current.kind = kind) (hkind : kind ≠ .eof) :
      s.current.kind ≠ .eof := hk ▸ hkind
  cases hk : s.current.kind <;> rw [hk] at h <;> dsimp only at h
  case run =>
    obtain ⟨hg, hend⟩ := gives_runStatement hbody h hs (hne hk nofun)
    exact .inr ⟨hg.ofList, hend⟩
  case ifWord => exact .inl (gives_ifStatement hbody h hs (hne hk nofun)).ofList
  case loop => exact .inl (gives_loopStatement hbody h hs (hne hk nofun)).ofList
  case fnc => exact .inl (gives_functionStatement hbody h hs (hne hk nofun)).ofList
  case init =>
    obtain ⟨node, hnode, rfl⟩ := single_eq_ok.mp h
    have hinit : s.taken = 0 ∧ Gives V ctx s .start [node] .list s' :=
      gives_namespaceInit hnode hs hk
    rw [partOf, if_pos hinit.1]
    exact .inl hinit.2
  all_goals first | cases h | (obtain ⟨node, hnode, rfl⟩ := single_eq_ok.mp h; left)
  case dec => exact (gives_declaration hnode hs (hne hk nofun)).ofList
  case set => exact (gives_assignment hnode hs (hne hk nofun)).ofList
  case out => exact (gives_output hnode hs (hne hk nofun)).ofList
  case back => exact (gives_save hnode hs (hne hk nofun)).ofList
  case load => exact (gives_restore hnode hs (hne hk nofun)).ofList
  case rtn => exact (gives_giveBack hnode hs (hne hk nofun)).ofList
  case arithmetic op => exact (gives_calculation hnode hs hk).ofList
  case lib => exact (gives_libraryImport hnode hs hk).ofList
  case qualifier => exact (gives_qualifiedCall hnode hs hk).ofList

/-- **Lists of statements**, by induction on the budget. The invariant is that
all the words that are left are words of the vocabulary; what is known is what
the judgement gives. -/
theorem accepts_statements (budget : Nat) {ctx : Context} {e : Enclosure} {s s' : ReadState}
    {nodes : List Node} (h : statements budget ctx e s = .ok nodes s') (hs : s.Over V) :
    s'.Over V ∧ (s.taken ≠ 0 → s'.taken ≠ 0) ∧ e.verdict ctx.dialect s'.current = .ends ∧
      ∃ part, part.isFinal = true ∧ Accepts V ctx (partOf s) s.facts nodes part s'.facts := by
  induction budget generalizing ctx e s s' nodes with
  | zero => cases h
  | succ budget ih =>
    have hbody : BodySound V (statements budget) := by
      intro ctx e s s' nodes h hs htaken
      obtain ⟨hover, htaken', hends, part, hfinal, haccepts⟩ := ih h hs
      rw [partOf, if_neg htaken] at haccepts
      exact ⟨hover, htaken' htaken, hends, part, hfinal, haccepts⟩
    obtain ⟨hends, rfl, rfl⟩ | ⟨-, first, s₁, rest, hfirst, hrest, rfl⟩ := statements_eq_ok.mp h
    · refine ⟨hs, id, hends, partOf s', ?_, .nil⟩
      unfold partOf
      split <;> rfl
    obtain hg | ⟨hg, hstop⟩ := gives_statement hbody hfirst hs
    · obtain ⟨hover, htaken, hends, part, hfinal, haccepts⟩ := ih hrest hg.tokens
      rw [partOf, if_neg hg.taken] at haccepts
      exact ⟨hover, fun _ => htaken hg.taken, hends, part, hfinal, hg.accepts.append haccepts⟩
    · -- After `run` the list cannot go on, so nothing is left of it.
      cases budget with
      | zero => cases hrest
      | succ budget =>
        obtain ⟨hends, rfl, rfl⟩ | ⟨hgoes, -⟩ := statements_eq_ok.mp hrest
        · rw [List.append_nil]
          exact ⟨hg.tokens, fun _ => hg.taken, hends, .last, rfl, hg.accepts⟩
        · obtain ⟨hne, hterminator, -⟩ := (e.verdict_eq_goesOn).mp hgoes
          obtain hk | hk := hstop
          · exact absurd hk hne
          · rw [hk] at hterminator; cases hterminator

/-! ## Units -/

/-- Statements that a library may hold are nodes that it may hold. The kind of
the first word decides about both. -/
theorem isLibraryPart_of_statement {nodes : List Node} (h : statement body ctx s = .ok nodes s')
    (hk : s.current.kind.startsLibraryStatement = true) :
    ∀ node ∈ nodes, node.isLibraryPart = true := by
  unfold statement at h
  rw [bind_of_ok (seesCall_apply s)] at h
  split at h
  · next hcall => rw [current_of_startsCall hcall] at hk; cases hk
  rw [bind_of_ok (peek_apply s)] at h
  have hsingle {node : Node} (hnode : node.isLibraryPart = true) :
      ∀ node' ∈ [node], node'.isLibraryPart = true := by
    intro node' hmem
    rw [List.mem_singleton.mp hmem, hnode]
  cases hkind : s.current.kind <;> rw [hkind] at h hk <;> dsimp only at h
  case dec =>
    obtain ⟨node, hnode, rfl⟩ := single_eq_ok.mp h
    obtain ⟨_, _, _, _, _, _, -, -, -, -, -, -, -, rfl, -⟩ := declaration_eq_ok.mp hnode
    exact hsingle rfl
  case fnc =>
    obtain ⟨-, _, _, _, _, _, -, -, -, -, -, -, -, -, -, -, rfl, -⟩ := functionStatement_eq_ok.mp h
    exact hsingle rfl
  case lib =>
    obtain ⟨node, hnode, rfl⟩ := single_eq_ok.mp h
    obtain ⟨-, -, -, rfl, -⟩ := libraryImport_eq_ok.mp hnode
    exact hsingle rfl
  case init =>
    obtain ⟨node, hnode, rfl⟩ := single_eq_ok.mp h
    obtain ⟨-, -, rfl, -⟩ := namespaceInit_eq_ok.mp hnode
    exact hsingle rfl
  all_goals cases hk

theorem isLibraryPart_of_statements (budget : Nat) {nodes : List Node}
    (h : statements budget ctx (.unit true) s = .ok nodes s') :
    ∀ node ∈ nodes, node.isLibraryPart = true := by
  induction budget generalizing s nodes with
  | zero => cases h
  | succ budget ih =>
    obtain ⟨-, rfl, -⟩ | ⟨hgoes, first, s₁, rest, hfirst, hrest, rfl⟩ := statements_eq_ok.mp h
    · exact nofun
    · obtain ⟨-, -, hadmits⟩ := (Enclosure.verdict_eq_goesOn _).mp hgoes
      intro node hnode
      obtain hnode | hnode := List.mem_append.mp hnode
      · exact isLibraryPart_of_statement hfirst (hadmits rfl) node hnode
      · exact ih hrest node hnode

end Read

/-- The tokens of a list up to its end mark are words of a vocabulary, if all
of the list are. -/
theorem ReadState.over_ofTokens {V : Vocabulary} {tokens : List Token}
    (h : ∀ t ∈ tokens, t.kind ≠ .eof → V.word t.kind t.lexeme) :
    (ReadState.ofTokens tokens).Over V where
  words t ht := by
    have hne : t.kind ≠ .eof := by simpa using List.all_eq_true.mp List.all_takeWhile t ht
    exact h t ((List.takeWhile_prefix _).mem ht) hne
  final := by
    show (endMark tokens).kind = .eof
    unfold endMark
    split
    · next t ht => simpa using List.find?_some ht
    · split
      · rfl
      · rfl

/-- **A program that is read is acceptable**, and its warnings are those that
the judgement gives. So what is proved by induction on the judgement holds of
all that is read. -/
theorem Program.accepted_of_ofTokens {V : Vocabulary} {d : Dialect} {library : Bool}
    {tokens : List Token} {p : Program} {warnings : List Warning}
    (hwords : ∀ t ∈ tokens, t.kind ≠ .eof → V.word t.kind t.lexeme)
    (h : ofTokens d library tokens = .ok (p, warnings)) :
    p.Accepted V d library (warnings.map Warning.unplaced) := by
  unfold ofTokens at h
  dsimp only at h
  split at h
  · next nodes s' hread =>
    obtain ⟨rfl, rfl⟩ := Prod.mk.inj (Except.ok.inj h)
    obtain ⟨-, -, -, part, hfinal, haccepts⟩ :=
      Read.accepts_statements _ hread (ReadState.over_ofTokens hwords)
    refine ⟨?_, part, s'.facts, hfinal, rfl, haccepts⟩
    rintro rfl
    exact Read.isLibraryPart_of_statements _ hread
  · cases h

/-- A program that is read from a text is acceptable with the words of its
dialect, since the tokens of a text are lexemes of it. -/
theorem Program.accepted_of_ofText {d : Dialect} {library : Bool} {text : String} {p : Program}
    {warnings : List Warning} (h : ofText d library text = .ok (p, warnings)) :
    p.Accepted d.vocabulary d library (warnings.map Warning.unplaced) := by
  cases hscan : Token.scan d text with
  | error e =>
    rw [ofText, hscan] at h
    cases h
  | ok tokens =>
    rw [ofText, hscan] at h
    have htokens : ofTokens d library tokens = .ok (p, warnings) := h
    exact accepted_of_ofTokens (Token.lexeme_of_scanFrom hscan) htokens

end MapleCompiler
