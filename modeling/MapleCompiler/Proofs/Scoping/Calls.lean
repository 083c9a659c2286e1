import MapleCompiler.Program.Equality
import MapleCompiler.Proofs.Acceptance.Exchange
import MapleCompiler.Proofs.Scoping.Resolution

/-!
# Calls and the names that are called

A call is checked when it is read, against what is declared *by then*. A unit may
call functions that it does not have, so a name that is not declared yet is not
looked at again when its declaration comes. What is checked about a call, in terms
of the program, is `Program.Callable`: if a function of that name stands before the
call, the call agrees with it (`Program.Agrees`), and the value of a variable does
not come from a call of a variable that stands before. Nothing else is asked
(`Program.Accepted.isRead_withCall_iff`).

So calls do *not* always agree with the functions of the unit, and it is not only
functions that are called:

* a call before the function may pass any number of arguments, and initialise a
  variable of any type (`Program.ofText_call_agrees`);
* a call that stands by itself may name a variable, any call may name a loop
  variable or parameter around it, and a variable may call itself for its value
  (`Program.ofText_callee_iff`).
-/

namespace MapleCompiler

/-- A variable is no function, so it has no number of parameters that a call
could be compared with. -/
theorem Declaration.arity?_symbol (v : Declaration) : v.symbol.arity? = none := by
  unfold Declaration.symbol Symbol.arity?
  cases v.initializer <;> rfl

theorem Declaration.isFunction_symbol (v : Declaration) : v.symbol.isFunction = false := by
  unfold Declaration.symbol Symbol.isFunction
  cases v.initializer <;> rfl

namespace Node

/-- The call that a node makes, by itself or for the value of a variable. -/
def call? : Node → Option Call
  | .call c => some c
  | .declare ⟨_, _, .call c, _⟩ => some c
  | _ => none

/-- The node with another call in place of the one that it makes. -/
def withCall (c : Call) : Node → Node
  | .call _ => .call c
  | .declare ⟨type, name, .call _, constant⟩ => .declare ⟨type, name, .call c, constant⟩
  | node => node

variable {node : Node} {c : Call}

/-- A node that calls is a call, or declares a variable that starts with one.
Qualified calls are of libraries and are not meant here. -/
theorem call?_cases (h : node.call? = some c) :
    node = .call c ∨ ∃ type name constant, node = .declare ⟨type, name, .call c, constant⟩ := by
  match node, h with
  | .call _, rfl => exact .inl rfl
  | .declare ⟨_, _, .call _, _⟩, rfl => exact .inr ⟨_, _, _, rfl⟩

theorem withCall_self (h : node.call? = some c) : node.withCall c = node := by
  obtain rfl | ⟨_, _, _, rfl⟩ := call?_cases h
  · rfl
  · rfl

/-- Whatever is called, the same is known afterwards. -/
theorem interchangeable_withCall (h : node.call? = some c) (c' : Call) :
    node.Interchangeable (node.withCall c') := by
  obtain rfl | ⟨_, _, _, rfl⟩ := call?_cases h
  · exact ⟨rfl, rfl, fun part => by cases part <;> rfl, fun _ => rfl, fun _ => rfl, rfl⟩
  · exact ⟨rfl, rfl, fun part => by cases part <;> rfl, fun _ => rfl, fun _ => rfl, rfl⟩

end Node

namespace Program

variable (p : Program)

/-- The program with another call at a site. -/
def withCall (σ : Site) (c : Call) : Program := p.modifyAt σ (Node.withCall c)

/-- **A call at a site agrees with a function**: it passes one argument for
every parameter, and a variable that starts with it has the type that is
returned. -/
def Agrees (σ : Site) (c : Call) (s : Signature) : Prop :=
  c.arguments.length = s.parameters.length ∧
    ∀ v, p.at? σ = some (.declare v) → v.type = s.returnType

/-- **What a call has to fulfil at a site**, its arguments aside. -/
structure Callable (σ : Site) (c : Call) : Prop where
  /-- It agrees with the function that it names, if that stands before it. -/
  agrees : ∀ δ s body, δ < σ → p.at? δ = some (.function s body) → s.name = c.function →
    p.Agrees σ c s
  /-- The value of a variable does not come from a variable before it. -/
  not_variable : ∀ δ v w, δ < σ → p.at? δ = some (.declare v) → p.at? σ = some (.declare w) →
    v.name ≠ c.function

variable {p} {d : Dialect} {library : Bool} {warnings : List (String × String)} {σ : Site}
  {ctx : Context} {F : Facts}

/-! ## The rules for calls -/

/-- A declared name is a variable or a function before the site, at whatever
depth. -/
theorem means_declared_iff {x : String} {symbol : Symbol} :
    p.Means σ x (.declared symbol) ↔
      (∃ δ v, δ < σ ∧ p.at? δ = some (.declare v) ∧ v.name = x ∧ v.symbol = symbol) ∨
        ∃ δ s body, δ < σ ∧ p.at? δ = some (.function s body) ∧ s.name = x ∧
          s.symbol = symbol := by
  constructor
  · rintro ⟨⟨δ, hlt, node, hδ, hsymbol⟩, rfl⟩
    cases node with
    | declare v =>
      obtain rfl := Option.some.inj hsymbol
      exact .inl ⟨δ, v, hlt, hδ, rfl, rfl⟩
    | function s body =>
      obtain rfl := Option.some.inj hsymbol
      exact .inr ⟨δ, s, body, hlt, hδ, rfl, rfl⟩
    | _ => cases hsymbol
  · rintro (⟨δ, v, hlt, hδ, rfl, rfl⟩ | ⟨δ, s, body, hlt, hδ, rfl, rfl⟩)
    · exact ⟨⟨δ, hlt, _, hδ, rfl⟩, rfl⟩
    · exact ⟨⟨δ, hlt, _, hδ, rfl⟩, rfl⟩

namespace Situation

variable {c : Call}

theorem callChecked_iff (h : p.Situation σ ctx F) :
    Node.CallChecked d.vocabulary F.scope c ↔
      Lexeme d .identifier c.function ∧ ∀ x ∈ c.arguments, p.Offers d σ x := by
  unfold Node.CallChecked
  simp only [h.known_iff]
  exact Iff.rfl

/-- **The number of arguments is that of a function before the call.** Of
functions after it, and of other names, nothing is asked. -/
theorem matches_iff (h : p.Situation σ ctx F) (hone : F.scope.Unambiguous) :
    F.scope.Matches c ↔
      ∀ δ s body, δ < σ → p.at? δ = some (.function s body) → s.name = c.function →
        c.arguments.length = s.parameters.length := by
  unfold Scope.Matches
  simp only [h.lookup?_iff hone, means_declared_iff]
  constructor
  · intro hmatches δ s body hlt hδ hname
    exact hmatches s.symbol (.inr ⟨δ, s, body, hlt, hδ, hname, rfl⟩) _ rfl
  · rintro hcall symbol (⟨δ, v, -, -, -, rfl⟩ | ⟨δ, s, body, hlt, hδ, hname, rfl⟩) arity harity
    · rw [v.arity?_symbol] at harity
      cases harity
    · obtain rfl := Option.some.inj harity
      exact hcall δ s body hlt hδ hname

/-- **A value comes from functions that return its type**, among what is
declared before. A variable before the call cannot be called for a value; of
later declarations nothing is asked. -/
theorem supplies_iff (h : p.Situation σ ctx F) (hone : F.scope.Unambiguous) {x : String}
    {type : ValueType} :
    F.scope.Supplies x type ↔
      (∀ δ s body, δ < σ → p.at? δ = some (.function s body) → s.name = x →
        s.returnType = type) ∧
      ∀ δ v, δ < σ → p.at? δ = some (.declare v) → v.name ≠ x := by
  unfold Scope.Supplies
  simp only [h.lookup?_iff hone, means_declared_iff]
  constructor
  · refine fun hsupplies => ⟨fun δ s body hlt hδ hname => ?_, fun δ v hlt hδ hname => ?_⟩
    · exact (hsupplies s.symbol (.inr ⟨δ, s, body, hlt, hδ, hname, rfl⟩)).2
    · have hfunction := (hsupplies v.symbol (.inl ⟨δ, v, hlt, hδ, hname, rfl⟩)).1
      rw [v.isFunction_symbol] at hfunction
      cases hfunction
  · rintro ⟨hfunction, hvariable⟩ symbol
      (⟨δ, v, hlt, hδ, hname, -⟩ | ⟨δ, s, body, hlt, hδ, hname, rfl⟩)
    · exact absurd hname (hvariable δ v hlt hδ)
    · exact ⟨rfl, hfunction δ s body hlt hδ hname⟩

/-- **What is checked about a call.** The node of a program that makes one has
what it needs with another call exactly if this names something that can be a
function, its arguments mean something, and it is callable there. -/
theorem checked_withCall_iff (h : p.Situation σ ctx F) (hone : F.scope.Unambiguous) {node : Node}
    (hσ : p.at? σ = some node) (hnode : node.call? = some c)
    (hchecked : node.Checked d.vocabulary ctx F) (c' : Call) :
    (node.withCall c').Checked d.vocabulary ctx F ↔
      (Lexeme d .identifier c'.function ∧ ∀ x ∈ c'.arguments, p.Offers d σ x) ∧
        p.Callable σ c' := by
  rw [← h.callChecked_iff]
  obtain rfl | ⟨type, name, constant, rfl⟩ := Node.call?_cases hnode
  · show Node.CallChecked _ _ c' ∧ F.scope.Matches c' ↔ _
    rw [h.matches_iff hone]
    -- no variable is declared here, so only the number of arguments matters
    refine and_congr_right fun _ => ⟨fun hmatches => ⟨?_, ?_⟩, fun hcallable => ?_⟩
    · intro δ s body hlt hδ hname
      refine ⟨hmatches δ s body hlt hδ hname, fun v hv => ?_⟩
      cases hσ.symm.trans hv
    · intro δ v w _ _ hw
      cases hσ.symm.trans hw
    · exact fun δ s body hlt hδ hname => (hcallable.agrees δ s body hlt hδ hname).1
  · obtain ⟨htype, hstorable, hword, hnew, -⟩ := hchecked
    have hinitializes : (Node.withCall c' (.declare ⟨type, name, .call c, constant⟩)).Checked
        d.vocabulary ctx F ↔ Node.CallChecked d.vocabulary F.scope c' ∧
          F.scope.Supplies c'.function type ∧ F.scope.Matches c' :=
      ⟨fun hchecked => hchecked.2.2.2.2, fun hinit => ⟨htype, hstorable, hword, hnew, hinit⟩⟩
    rw [hinitializes, h.supplies_iff hone, h.matches_iff hone]
    refine and_congr_right fun _ => ⟨?_, fun hcallable => ⟨⟨?_, ?_⟩, ?_⟩⟩
    · rintro ⟨⟨hreturns, hvariable⟩, hmatches⟩
      refine ⟨fun δ s body hlt hδ hname => ⟨hmatches δ s body hlt hδ hname, fun v hv => ?_⟩,
        fun δ v w hlt hδ _ => hvariable δ v hlt hδ⟩
      cases hσ.symm.trans hv
      exact (hreturns δ s body hlt hδ hname).symm
    · exact fun δ s body hlt hδ hname => ((hcallable.agrees δ s body hlt hδ hname).2 _ hσ).symm
    · exact fun δ v hlt hδ => hcallable.not_variable δ v _ hlt hδ hσ
    · exact fun δ s body hlt hδ hname => (hcallable.agrees δ s body hlt hδ hname).1

end Situation

theorem calls_iff {c : Call} :
    p.Calls σ c ↔ ∃ node, p.at? σ = some node ∧ node.call? = some c := by
  constructor
  · rintro (hσ | ⟨⟨type, name, initializer, constant⟩, hσ, rfl⟩)
    · exact ⟨_, hσ, rfl⟩
    · exact ⟨_, hσ, rfl⟩
  · rintro ⟨node, hσ, hnode⟩
    obtain rfl | ⟨type, name, constant, rfl⟩ := Node.call?_cases hnode
    · exact .inl hσ
    · exact .inr ⟨_, hσ, rfl⟩

namespace Accepted

variable {c : Call}

/-- **The calls of an acceptable program are callable**, and their arguments
mean something. What is checked against what is known is said here in terms of
the program. -/
theorem callable (h : p.Accepted d.vocabulary d library warnings) (hcall : p.Calls σ c) :
    (∀ x ∈ c.arguments, p.Offers d σ x) ∧ p.Callable σ c := by
  obtain ⟨node, hσ, hnode⟩ := calls_iff.mp hcall
  obtain ⟨ctx, F, hchecked, hone, hsituation, -⟩ := h.exchange hσ
  have hself := hsituation.checked_withCall_iff hone hσ hnode hchecked c
  rw [Node.withCall_self hnode] at hself
  obtain ⟨⟨-, harguments⟩, hcallable⟩ := hself.mp hchecked
  exact ⟨harguments, hcallable⟩

/-- **Exactly the callable calls are read** in place of a call. So what
`Callable` asks is all that is asked: no call is refused for another reason,
as long as it can be written down. -/
theorem isRead_withCall_iff (h : p.Accepted d.vocabulary d library warnings)
    (hcall : p.Calls σ c) (c' : Call) :
    (p.withCall σ c').IsRead d library ↔
      (Lexeme d .identifier c'.function ∧ ∀ x ∈ c'.arguments, p.Offers d σ x) ∧
        p.Callable σ c' := by
  obtain ⟨node, hσ, hnode⟩ := calls_iff.mp hcall
  obtain ⟨ctx, F, hchecked, hone, hsituation, hexchange⟩ := h.exchange hσ
  rw [withCall, hexchange _ (Node.interchangeable_withCall hnode c')]
  exact hsituation.checked_withCall_iff hone hσ hnode hchecked c'

/-- The name of a function can be written as a name, and nothing else declares
it. -/
theorem function_name (h : p.Accepted d.vocabulary d library warnings) {δ : Site} {s : Signature}
    {body : List Node} (hs : p.at? δ = some (.function s body)) :
    Lexeme d .identifier s.name ∧ ∀ δ', p.Declares δ' s.name → δ' = δ := by
  obtain ⟨ctx, F, ⟨-, -, hword, -⟩, -⟩ := h.situation (Facts.invariant_true _) trivial hs
  exact ⟨hword, fun δ' hδ' => h.declares_unique hδ' ⟨_, hs, rfl⟩⟩

/-- A function is callable with every number of arguments and for every type
before it is declared, and only as it says after that. A call of it inside of
its own body comes after. -/
theorem callable_function_iff (h : p.Accepted d.vocabulary d library warnings) {δ : Site}
    {s : Signature} {body : List Node} (hs : p.at? δ = some (.function s body))
    (hname : c.function = s.name) : p.Callable σ c ↔ (δ < σ → p.Agrees σ c s) := by
  obtain ⟨-, honly⟩ := h.function_name hs
  refine ⟨fun hcallable hlt => hcallable.agrees δ s body hlt hs hname.symm, fun hagrees => ⟨?_, ?_⟩⟩
  · intro δ' s' body' hlt hδ' hname'
    obtain rfl := honly δ' ⟨_, hδ', congrArg some (hname'.trans hname)⟩
    cases hs.symm.trans hδ'
    exact hagrees hlt
  · intro δ' v w _ hδ' _ hname'
    obtain rfl := honly δ' ⟨_, hδ', congrArg some (hname'.trans hname)⟩
    cases hs.symm.trans hδ'

end Accepted

/-! ## Calls of the functions of a unit -/

/-- **Calls agree with the functions that stand before them, and only with
those.** A call of a function that is inside of the function or after it
passes one argument for every parameter, and a variable that starts with it
has the type that is returned. At every place of a call, a call of the
function is read exactly if its arguments mean something and, where the
function stands before, the call agrees with it. So before the function calls
of it are read with any number of arguments, and for variables of any type. -/
theorem ofText_call_agrees {source : String} {p : Program} {warnings : List Warning}
    (h : ofText d library source = .ok (p, warnings)) {δ σ : Site} {s : Signature}
    {body : List Node} {c : Call} (hs : p.at? δ = some (.function s body))
    (hcall : p.Calls σ c) :
    (c.function = s.name → δ < σ → p.Agrees σ c s) ∧
      ∀ xs, (p.withCall σ ⟨s.name, xs⟩).IsRead d library ↔
        (∀ x ∈ xs, p.Offers d σ x) ∧ (δ < σ → p.Agrees σ ⟨s.name, xs⟩ s) := by
  have haccepted := accepted_of_ofText h
  constructor
  · intro hname
    exact (haccepted.callable_function_iff hs hname).mp (haccepted.callable hcall).2
  · intro xs
    rw [haccepted.isRead_withCall_iff hcall, haccepted.callable_function_iff hs rfl,
      and_iff_right (haccepted.function_name hs).1]

/-- A function that calls itself and is called before it and after it. -/
def calledFunction : Program :=
  ⟨[.call ⟨"f", ["1"]⟩, .function ⟨.i32, "f", [("n", .i32)]⟩
      [.declare ⟨.i32, "r", .call ⟨"f", ["n"]⟩, true⟩, .giveBack (some "r")],
    .declare ⟨.i32, "x", .call ⟨"f", ["2"]⟩, true⟩]⟩

/-- Inside of the function and after it, the calls agree with it. Before it
there is a call as well, and one without arguments is read in its place; after
it, it is not. -/
theorem ofText_call_agrees_recursive :
    ofText .maple false
        "f : 1 :\nfnc i32 f : i32 n :\ndec i32 r f : n :\nrtn r\nend\ndec i32 x f : 2 :" =
        .ok (calledFunction, []) ∧
      calledFunction.Agrees [1, 0] ⟨"f", ["n"]⟩ ⟨.i32, "f", [("n", .i32)]⟩ ∧
      calledFunction.Agrees [2] ⟨"f", ["2"]⟩ ⟨.i32, "f", [("n", .i32)]⟩ ∧
      (calledFunction.withCall [0] ⟨"f", []⟩).IsRead .maple false ∧
      ¬(calledFunction.withCall [2] ⟨"f", []⟩).IsRead .maple false := by
  have hread : ofText .maple false
      "f : 1 :\nfnc i32 f : i32 n :\ndec i32 r f : n :\nrtn r\nend\ndec i32 x f : 2 :" =
      .ok (calledFunction, []) := by decide +kernel
  have hbefore : calledFunction.Calls [0] ⟨"f", ["1"]⟩ := .inl rfl
  have hinside : calledFunction.Calls [1, 0] ⟨"f", ["n"]⟩ := .inr ⟨_, rfl, rfl⟩
  have hafter : calledFunction.Calls [2] ⟨"f", ["2"]⟩ := .inr ⟨_, rfl, rfl⟩
  refine ⟨hread, ?_, ?_, ?_, ?_⟩
  · exact (ofText_call_agrees (δ := [1]) hread rfl hinside).1 rfl (by decide)
  · exact (ofText_call_agrees (δ := [1]) hread rfl hafter).1 rfl (by decide)
  · refine ((ofText_call_agrees (δ := [1]) hread rfl hbefore).2 []).mpr ⟨by simp, fun hlt => ?_⟩
    exact absurd hlt (by decide)
  · intro hless
    obtain ⟨-, hagrees⟩ := ((ofText_call_agrees (δ := [1]) hread rfl hafter).2 []).mp hless
    exact absurd (hagrees (by decide)).1 (by decide)

/-- Two functions, and calls of them before they are declared. -/
def earlyCalls : Program :=
  ⟨[.call ⟨"f", ["1"]⟩, .declare ⟨.i32, "x", .call ⟨"g", []⟩, true⟩,
    .function ⟨.empty, "f", []⟩ [], .function ⟨.bool, "g", []⟩ [.giveBack (some "true")]]⟩

/-- **A call can disagree with a function of the unit**: the text is read
although the first call passes an argument to a function without parameters,
and the second one initialises a variable of another type than the function
returns. -/
theorem ofText_call_disagrees :
    ofText .maple false
        "f : 1 :\ndec i32 x g : :\nfnc empty f : :\nend\nfnc bool g : :\nrtn true\nend" =
        .ok (earlyCalls, []) ∧
      earlyCalls.Calls [0] ⟨"f", ["1"]⟩ ∧
      earlyCalls.at? [2] = some (.function ⟨.empty, "f", []⟩ []) ∧
      ["1"].length ≠ (Signature.parameters ⟨.empty, "f", []⟩).length ∧
      earlyCalls.at? [1] = some (.declare ⟨.i32, "x", .call ⟨"g", []⟩, true⟩) ∧
      earlyCalls.at? [3] = some (.function ⟨.bool, "g", []⟩ [.giveBack (some "true")]) ∧
      ValueType.i32 ≠ .bool := by
  refine ⟨by decide +kernel, .inl rfl, rfl, by decide, rfl, rfl, by decide⟩

/-! ## Names that are called -/

/-- **Which names are called.** The value of a variable never comes from a
call of a variable that stands before it. At every place of a call, a call of
another name with the same arguments is read exactly if it agrees with the
function of that name, if there is one before, and if the name is not that of
a variable before the one that is initialised. No other names are refused: a
call by itself may name a variable, any call may name what is bound around it,
and a variable may call itself. -/
theorem ofText_callee_iff {source : String} {p : Program} {warnings : List Warning}
    (h : ofText d library source = .ok (p, warnings)) {σ : Site} {c : Call}
    (hcall : p.Calls σ c) :
    (∀ δ v w, δ < σ → p.at? δ = some (.declare v) → p.at? σ = some (.declare w) →
      c.function ≠ v.name) ∧
    ∀ y, (p.withCall σ ⟨y, c.arguments⟩).IsRead d library ↔
      Lexeme d .identifier y ∧
      (∀ δ s body, δ < σ → p.at? δ = some (.function s body) → s.name = y →
        p.Agrees σ ⟨y, c.arguments⟩ s) ∧
      ∀ δ v w, δ < σ → p.at? δ = some (.declare v) → p.at? σ = some (.declare w) →
        y ≠ v.name := by
  have haccepted := accepted_of_ofText h
  obtain ⟨harguments, hcallable⟩ := haccepted.callable hcall
  refine ⟨fun δ v w hlt hδ hσ => (hcallable.not_variable δ v w hlt hδ hσ).symm, fun y => ?_⟩
  rw [haccepted.isRead_withCall_iff hcall, and_iff_left harguments]
  refine and_congr_right fun _ => ⟨fun hnew => ⟨hnew.agrees, ?_⟩, fun hnew => ⟨hnew.1, ?_⟩⟩
  · exact fun δ v w hlt hδ hσ => (hnew.not_variable δ v w hlt hδ hσ).symm
  · exact fun δ v w hlt hδ hσ => (hnew.2 δ v w hlt hδ hσ).symm

/-- A variable, then a call for the value of another one, then a call by
itself. -/
def callsAfterVariable : Program :=
  ⟨[.declare ⟨.i32, "x", .value "1", true⟩, .declare ⟨.i32, "y", .call ⟨"g", []⟩, true⟩,
    .call ⟨"g", []⟩]⟩

/-- The value of `y` cannot come from `x`, but from `y` itself, and both are
read as the name of what is called by the last statement. -/
theorem ofText_callee_iff_variables :
    ofText .maple false "dec i32 x 1\ndec i32 y g : :\ng : :" = .ok (callsAfterVariable, []) ∧
      ¬(callsAfterVariable.withCall [1] ⟨"x", []⟩).IsRead .maple false ∧
      (callsAfterVariable.withCall [1] ⟨"y", []⟩).IsRead .maple false ∧
      (callsAfterVariable.withCall [2] ⟨"x", []⟩).IsRead .maple false ∧
      (callsAfterVariable.withCall [2] ⟨"y", []⟩).IsRead .maple false := by
  have hread : ofText .maple false "dec i32 x 1\ndec i32 y g : :\ng : :" =
      .ok (callsAfterVariable, []) := by decide +kernel
  have hvalue : callsAfterVariable.Calls [1] ⟨"g", []⟩ := .inr ⟨_, rfl, rfl⟩
  have halone : callsAfterVariable.Calls [2] ⟨"g", []⟩ := .inl rfl
  have hx : Lexeme .maple .identifier "x" := by decide +kernel
  have hy : Lexeme .maple .identifier "y" := by decide +kernel
  have hfunction : ∀ δ s body, callsAfterVariable.at? δ ≠ some (.function s body) := by
    intro δ s body hδ
    rcases δ with _ | ⟨_ | _ | _ | i, _ | ⟨j, τ⟩⟩ <;>
      simp [at?, callsAfterVariable, Node.body] at hδ
  refine ⟨hread, fun hcalled => ?_, ?_, ?_, ?_⟩
  · obtain ⟨-, -, hvariable⟩ := ((ofText_callee_iff hread hvalue).2 "x").mp hcalled
    exact hvariable [0] _ _ (by decide) rfl rfl rfl
  · refine ((ofText_callee_iff hread hvalue).2 "y").mpr
      ⟨hy, fun δ s body _ hδ => absurd hδ (hfunction δ s body), fun δ v w hlt hδ _ => ?_⟩
    -- only the declaration of `x` stands before that of `y`
    rcases δ with _ | ⟨_ | i, _ | ⟨j, τ⟩⟩
    · cases hδ
    · cases hδ
      decide
    · cases (Node.at?_nil _).symm.trans hδ
    · simp [List.cons_lt_cons_iff] at hlt
    · simp [List.cons_lt_cons_iff] at hlt
  · refine ((ofText_callee_iff hread halone).2 "x").mpr
      ⟨hx, fun δ s body _ hδ => absurd hδ (hfunction δ s body), fun _ _ _ _ _ hcall => ?_⟩
    cases hcall
  · refine ((ofText_callee_iff hread halone).2 "y").mpr
      ⟨hy, fun δ s body _ hδ => absurd hδ (hfunction δ s body), fun _ _ _ _ _ hcall => ?_⟩
    cases hcall

/-- Calls of variables, of a parameter and of the counter of a loop. -/
def variableCalls : Program :=
  ⟨[.declare ⟨.i32, "x", .value "1", true⟩, .call ⟨"x", []⟩,
    .declare ⟨.i32, "y", .call ⟨"y", []⟩, true⟩,
    .function ⟨.empty, "f", [("p", .i32)]⟩ [.call ⟨"p", []⟩],
    .loop "i" "0" "3" [.call ⟨"i", []⟩], .endLoop]⟩

/-- **Variables, parameters and counters can be called**: the text is read
although a call names a variable that is declared before it, another one the
variable that it initialises, and two more what is bound around them. -/
theorem ofText_variable_called :
    ofText .maple false
        ("dec i32 x 1\nx : :\ndec i32 y y : :\nfnc empty f : i32 p :\np : :\nend\n" ++
          "loop i 3\ni : :\nroll") =
        .ok (variableCalls, []) ∧
      (variableCalls.at? [0] = some (.declare ⟨.i32, "x", .value "1", true⟩) ∧
        variableCalls.Calls [1] ⟨"x", []⟩) ∧
      variableCalls.at? [2] = some (.declare ⟨.i32, "y", .call ⟨"y", []⟩, true⟩) ∧
      ("p" ∈ variableCalls.boundAt [3, 0] ∧ variableCalls.Calls [3, 0] ⟨"p", []⟩) ∧
      "i" ∈ variableCalls.boundAt [4, 0] ∧ variableCalls.Calls [4, 0] ⟨"i", []⟩ := by
  refine ⟨by decide +kernel, ⟨rfl, .inl rfl⟩, rfl, ⟨by decide, .inl rfl⟩, by decide, .inl rfl⟩

end Program

end MapleCompiler
