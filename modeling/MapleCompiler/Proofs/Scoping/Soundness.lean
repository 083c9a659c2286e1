import MapleCompiler.Program.Equality
import MapleCompiler.Proofs.Scoping.Resolution

/-!
# Names in programs that are read

What a reader accepts uses names as the program itself allows. At every site,
however deep, an operand is a literal, or a name that a node before the site
declares or a node around it binds; a library that is called was imported before
(`Program.ofText_operand_in_scope`). A name that gets a new value stands for a
binding or for a variable that is not constant, and for nothing else
(`Program.ofTokens_target_changeable`).

The first statement is about texts, because it takes the class of a literal from
the scanner. The second one holds for any tokens.
-/

namespace MapleCompiler

/-! ## Operands -/

/-- **Every operand of a program that is read is a literal or a name in
scope**: one that is bound by a loop or function around the node, or declared
by a node before it. A library whose function is called is imported by a node
before. -/
theorem Program.ofText_operand_in_scope {d : Dialect} {library : Bool} {source : String}
    {p : Program} {warnings : List Warning}
    (h : ofText d library source = .ok (p, warnings)) :
    (∀ σ node, p.at? σ = some node → ∀ x ∈ node.operands,
      (Literal.classify x).isSome = true ∨ x ∈ p.boundAt σ ∨ ∃ δ, δ < σ ∧ p.Declares δ x) ∧
    ∀ σ name c, p.at? σ = some (.qualifiedCall name c) →
      ∃ δ span, δ < σ ∧ p.at? δ = some (.useLibrary name span) := by
  have haccepted := accepted_of_ofText h
  constructor
  · intro σ node hσ x hmem
    obtain ⟨ctx, F, hchecked, hF, hsituation⟩ :=
      haccepted.situation (Facts.invariant_arraysFit d) nofun hσ
    cases hx : Literal.classify x with
    | some literal => exact .inl rfl
    | none =>
      obtain ⟨m, hm⟩ := hsituation.isDefined_iff.mp (hchecked.operand_defined hF hx hmem)
      exact .inr hm.bound_or_declared
  · intro σ name c hσ
    obtain ⟨ctx, F, ⟨himport, -⟩, -, hsituation⟩ :=
      haccepted.situation (Facts.invariant_true _) trivial hσ
    obtain ⟨δ, hlt, node, hδ, hname⟩ := (hsituation.imports_iff name).mp himport
    cases node with
    | useLibrary name' span =>
      obtain rfl := Option.some.inj hname
      exact ⟨δ, span, hlt, hδ⟩
    | _ => cases hname

/-- A program with a loop in a function, and with a library. -/
def countingProgram : Program :=
  ⟨[.useLibrary "io" ⟨4, 3, 1, 5⟩,
    .function ⟨.i32, "count", [("n", .i32)]⟩
      [.declare ⟨.i32, "s", .value "0", false⟩,
        .loop "i" "0" "n" [.calculate ⟨.add, "s", "i", none⟩], .endLoop,
        .giveBack (some "s")],
    .qualifiedCall "io" ⟨"put", ["s"]⟩]⟩

/-- In the loop the variable is declared before and the counter is bound, and
after the function its variable is still in scope. -/
theorem Program.ofText_operand_in_scope_loop :
    ofText .maple false
        ("lib @io\nfnc i32 count : i32 n :\ndec ch i32 s 0\nloop i n\nadd s i\nroll\nrtn s\nend\n" ++
          "@io::put : s :") = .ok (countingProgram, []) ∧
      (∀ x ∈ ["s", "i"], (Literal.classify x).isSome = true ∨
        x ∈ countingProgram.boundAt [1, 1, 0] ∨
          ∃ δ, δ < [1, 1, 0] ∧ countingProgram.Declares δ x) ∧
      countingProgram.boundAt [1, 1, 0] = ["n", "i"] ∧
      (∀ x ∈ ["s"], (Literal.classify x).isSome = true ∨ x ∈ countingProgram.boundAt [2] ∨
        ∃ δ, δ < [2] ∧ countingProgram.Declares δ x) ∧
      ∃ δ span, δ < [2] ∧ countingProgram.at? δ = some (.useLibrary "io" span) := by
  have hread : ofText .maple false
      ("lib @io\nfnc i32 count : i32 n :\ndec ch i32 s 0\nloop i n\nadd s i\nroll\nrtn s\nend\n" ++
        "@io::put : s :") = .ok (countingProgram, []) := by decide +kernel
  obtain ⟨hoperand, himport⟩ := ofText_operand_in_scope hread
  exact ⟨hread, hoperand [1, 1, 0] _ rfl, rfl, hoperand [2] _ rfl, himport [2] "io" _ rfl⟩

/-! ## Names that get a new value -/

/-- The name that a node gives a new value to: the target of an assignment,
the destination of a calculation or else its left operand, and the variable
that is brought back. -/
def Node.target? : Node → Option String
  | .assign a => some a.target
  | .calculate c => some (c.destination?.getD c.left)
  | .restore name => some name
  | _ => none

/-- A variable is constant as its declaration says, whatever it starts
with. -/
theorem Declaration.isConstant_symbol (v : Declaration) : v.symbol.isConstant = v.constant := by
  unfold Declaration.symbol Symbol.isConstant
  cases v.initializer <;> rfl

/-- What gets a new value may be changed. By cases on the node: assignments,
calculations and restores are the ones that write. -/
theorem Node.Checked.target_changeable {V : Vocabulary} {ctx : Context} {F : Facts} {node : Node}
    {x : String} (h : node.Checked V ctx F) (hx : node.target? = some x) :
    ∃ m, F.scope.resolve? x = some m ∧ m.isChangeable = true := by
  cases node with
  | assign a =>
    obtain rfl := Option.some.inj hx
    obtain ⟨-, type, htarget, -⟩ := h
    obtain ⟨m, hm, hchangeable, -⟩ := htarget.changeable
    exact ⟨m, hm, hchangeable⟩
  | calculate c =>
    obtain rfl := Option.some.inj hx
    obtain ⟨-, -, -, hstored⟩ := h
    unfold Stored at hstored
    cases hd : c.destination? with
    | none =>
      rw [hd] at hstored
      obtain ⟨-, m, hm, hchangeable, -⟩ := hstored
      exact ⟨m, hm, hchangeable⟩
    | some name =>
      rw [hd] at hstored
      obtain ⟨-, -, m, hm, hchangeable, -⟩ := hstored
      exact ⟨m, hm, hchangeable⟩
  | restore name =>
    obtain rfl := Option.some.inj hx
    obtain ⟨-, m, ⟨hm, -⟩, hchangeable⟩ := h
    exact ⟨m, hm, hchangeable⟩
  | _ => cases hx

/-- A node that declares what may be changed is a variable that is not
constant: functions never are. -/
theorem Node.declare_of_changeable {node : Node} {symbol : Symbol}
    (h : node.symbol? = some symbol) (hchangeable : (Meaning.declared symbol).isChangeable = true) :
    ∃ v, node = .declare v ∧ v.name = symbol.name ∧ v.constant = false := by
  cases node with
  | declare v =>
    obtain rfl := Option.some.inj h
    refine ⟨v, rfl, rfl, ?_⟩
    rw [← v.isConstant_symbol]
    simpa [Meaning.isChangeable] using hchangeable
  | function s body =>
    obtain rfl := Option.some.inj h
    cases hchangeable
  | _ => cases h

/-- **Constants are never written.** Wherever a node gives a new value to a
name, the name is bound around the node or declared before it. If a node
before it declares the name, then that node is a variable that is not
constant, and the name is not also bound; so it never is a constant or a
function. -/
theorem Program.ofTokens_target_changeable {d : Dialect} {library : Bool} {tokens : List Token}
    {p : Program} {warnings : List Warning}
    (h : ofTokens d library tokens = .ok (p, warnings)) {σ : Site} {node : Node} {x : String}
    (hσ : p.at? σ = some node) (hx : node.target? = some x) :
    (x ∈ p.boundAt σ ∨ ∃ δ, δ < σ ∧ p.Declares δ x) ∧
      ∀ δ, δ < σ → p.Declares δ x → x ∉ p.boundAt σ ∧
        ∃ v, p.at? δ = some (.declare v) ∧ v.name = x ∧ v.constant = false := by
  have haccepted := accepted_of_ofTokens (V := .full) (fun _ _ _ => trivial) h
  obtain ⟨ctx, F, hchecked, -, hsituation⟩ :=
    haccepted.situation (Facts.invariant_true _) trivial hσ
  obtain ⟨m, hresolve, hchangeable⟩ := hchecked.target_changeable hx
  have hm := (hsituation.resolve?_iff x m).mp hresolve
  refine ⟨hm.bound_or_declared, ?_⟩
  rintro δ hlt ⟨node', hδ, hname⟩
  rw [Node.declared?_eq] at hname
  obtain ⟨symbol, hsymbol, rfl⟩ := Option.map_eq_some_iff.mp hname
  -- the declaration is a meaning of the name, so it is the one that may be changed
  have hdeclared : p.Means σ symbol.name (.declared symbol) :=
    ⟨⟨δ, hlt, node', hδ, hsymbol⟩, rfl⟩
  obtain rfl := hsituation.means_unique hm hdeclared
  constructor
  · rw [boundAt, Node.boundAt_eq]
    intro hbound
    obtain ⟨⟨_, type⟩, hmem, rfl⟩ := List.mem_map.mp hbound
    cases hsituation.means_unique (m := .bound type) hmem hdeclared
  · obtain ⟨v, rfl, hv, hconstant⟩ := Node.declare_of_changeable hsymbol hchangeable
    exact ⟨v, hδ, hv, hconstant⟩

/-- A program in which `n` is a parameter first and a constant later. -/
def reusedName : Program :=
  ⟨[.function ⟨.i32, "f", [("n", .i32)]⟩ [.assign ⟨"n", none, .plain "1"⟩, .giveBack (some "n")],
    .declare ⟨.i32, "n", .value "5", true⟩, .declare ⟨.i32, "m", .value "2", false⟩,
    .calculate ⟨.add, "m", "n", none⟩]⟩

/-- The tokens of that program. -/
def reusedNameTokens : List Token :=
  [(.fnc, "fnc"), (.type .i32, "i32"), (.identifier, "f"), (.colon, ":"), (.type .i32, "i32"),
    (.identifier, "n"), (.colon, ":"), (.set, "set"), (.identifier, "n"), (.number, "1"),
    (.rtn, "rtn"), (.identifier, "n"), (.endWord, "end"), (.dec, "dec"), (.type .i32, "i32"),
    (.identifier, "n"), (.number, "5"), (.dec, "dec"), (.ch, "ch"), (.type .i32, "i32"),
    (.identifier, "m"), (.number, "2"), (.arithmetic .add, "add"), (.identifier, "m"),
    (.identifier, "n")].map fun word => ⟨word.1, word.2, .start⟩

/-- The parameter may be written although a constant takes its name later, and
the result of the calculation goes to a variable that is not constant. -/
theorem Program.ofTokens_target_changeable_parameter :
    ofTokens .maple false reusedNameTokens = .ok (reusedName, []) ∧
      (("n" ∈ reusedName.boundAt [0, 0] ∨ ∃ δ, δ < [0, 0] ∧ reusedName.Declares δ "n") ∧
        ∀ δ, δ < [0, 0] → reusedName.Declares δ "n" → "n" ∉ reusedName.boundAt [0, 0] ∧
          ∃ v, reusedName.at? δ = some (.declare v) ∧ v.name = "n" ∧ v.constant = false) ∧
      "n" ∈ reusedName.boundAt [0, 0] ∧ reusedName.Declares [1] "n" ∧
      (("m" ∈ reusedName.boundAt [3] ∨ ∃ δ, δ < [3] ∧ reusedName.Declares δ "m") ∧
        ∀ δ, δ < [3] → reusedName.Declares δ "m" → "m" ∉ reusedName.boundAt [3] ∧
          ∃ v, reusedName.at? δ = some (.declare v) ∧ v.name = "m" ∧ v.constant = false) ∧
      reusedName.Declares [2] "m" := by
  have hread : ofTokens .maple false reusedNameTokens = .ok (reusedName, []) := by decide +kernel
  exact ⟨hread, ofTokens_target_changeable hread rfl rfl, by decide, ⟨_, rfl, rfl⟩,
    ofTokens_target_changeable hread rfl rfl, ⟨_, rfl, rfl⟩⟩

end MapleCompiler
