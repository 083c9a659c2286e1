import MapleCompiler.Program.Equality
import MapleCompiler.Proofs.Acceptance.Exchange
import MapleCompiler.Proofs.Typing.Bounds
import MapleCompiler.Proofs.Typing.Operands
import MapleCompiler.Proofs.Typing.Soundness

/-!
# Words in the place of values

A declaration, an assignment and the end of a function can store a plain value, which is
written as one word (`Node.plainValue?`). A word that the dialect does not reserve is a
name, and one would look it up. But `true` and `false` are taken for truth values whether
they are reserved or not: the small dialect does not reserve them, so they are names there,
and still they are not looked up (`Program.WordFits`). A variable with one of these names
can be declared in the small dialect, and its value is never stored.

Main statement: `Program.ofText_word_iff`, which says for every name whether it can be
stored at a site. All other names have to mean a single value of the type of the place.
-/

namespace MapleCompiler

namespace Node

/-- **The plain value that a node stores**: in a new variable, by an
assignment, or as the result of a function. -/
def plainValue? : Node → Option String
  | .declare ⟨_, _, .value x, _⟩ => some x
  | .assign ⟨_, _, .plain x⟩ => some x
  | .giveBack (some x) => some x
  | _ => none

/-- The node with another plain value. -/
def withPlainValue (y : String) : Node → Node
  | .declare ⟨type, name, .value _, constant⟩ => .declare ⟨type, name, .value y, constant⟩
  | .assign ⟨target, index?, .plain _⟩ => .assign ⟨target, index?, .plain y⟩
  | .giveBack (some _) => .giveBack (some y)
  | node => node

/-- **A node with a plain value** is one of three: a declaration, an
assignment or a return. -/
theorem plainValue?_cases {node : Node} {x : String} (h : node.plainValue? = some x) :
    (∃ type name constant, node = .declare ⟨type, name, .value x, constant⟩) ∨
      (∃ target index?, node = .assign ⟨target, index?, .plain x⟩) ∨
      node = .giveBack (some x) := by
  unfold plainValue? at h
  split at h
  · cases h
    exact .inl ⟨_, _, _, rfl⟩
  · cases h
    exact .inr (.inl ⟨_, _, rfl⟩)
  · cases h
    exact .inr (.inr rfl)
  · cases h

theorem withPlainValue_self {node : Node} {x : String} (h : node.plainValue? = some x) :
    node.withPlainValue x = node := by
  obtain ⟨_, _, _, rfl⟩ | ⟨_, _, rfl⟩ | rfl := plainValue?_cases h <;> rfl

/-- What is known after a node does not depend on its plain value, so another
one may take its place. -/
theorem interchangeable_withPlainValue {node : Node} {x : String} (h : node.plainValue? = some x)
    (y : String) : node.Interchangeable (node.withPlainValue y) := by
  obtain ⟨_, _, _, rfl⟩ | ⟨_, _, rfl⟩ | rfl := plainValue?_cases h
  all_goals
    exact ⟨rfl, rfl, fun part => by cases part <;> rfl, fun _ => rfl, fun _ => rfl, rfl⟩

/-- The place that is assigned to has one type, that of what its name
means. -/
theorem Assignable.type_eq {V : Vocabulary} {s : Scope} {type type' : ValueType} {name : String}
    {index? : Option String} (h : Assignable V s type name index?)
    (h' : Assignable V s type' name index?) : type = type' := by
  have htarget {i i' : Option (TokenKind × String)} (h : s.Targets name i type)
      (h' : s.Targets name i' type') : type = type' := by
    obtain ⟨m, hm, -, rfl, -⟩ := h
    obtain ⟨m', hm', -, rfl, -⟩ := h'
    rw [Option.some.inj (hm.symm.trans hm')]
  cases index? with
  | none =>
    change s.Targets name none type at h
    change s.Targets name none type' at h'
    exact htarget h h'
  | some index =>
    obtain ⟨_, -, -, h⟩ := h
    obtain ⟨_, -, -, h'⟩ := h'
    exact htarget h h'

end Node

/-- **A name looks like a literal only if it is a truth value.** That can only
be in the small dialect, where truth values are no reserved words. -/
theorem Lexeme.classify_name {d : Dialect} {x : String} (h : Lexeme d .identifier x) :
    Literal.classify x = if x = "true" ∨ x = "false" then some .boolean else none := by
  split
  · next hx => rw [Literal.classify, if_pos hx]
  next hx =>
  cases hc : Literal.classify x with
  | none => rfl
  | some literal =>
    obtain hbool | ⟨c, cs, hx', hdigit⟩ := Literal.head_of_classify hc
    · exact absurd hbool hx
    · rw [h.isDigit_head hx'] at hdigit
      cases hdigit

namespace Program

variable (p : Program)

/-- **The place that a node stores its value in has a type**: the type of the
new variable, of the variable or element that is assigned to, or of the
function around the node. -/
def StoresAs (σ : Site) (type : ValueType) : Node → Prop
  | .declare v => type = v.type
  | .assign a => p.TypedPlace σ type a.target a.index?
  | .giveBack _ => ∃ s, p.functionAt σ = some s ∧ type = s.returnType
  | _ => False

/-- **A name can be stored in a place of a type**: `true` and `false` as truth
values, every other name if it means a single value of exactly that type. -/
def WordFits (σ : Site) (type : ValueType) (x : String) : Prop :=
  if x = "true" ∨ x = "false" then type = .bool else p.IsScalar σ x type

variable {p} {σ : Site} {ctx : Context} {F : Facts} {d : Dialect} {x : String}

theorem Situation.stores_iff (h : p.Situation σ ctx F) (hword : Lexeme d .identifier x)
    (type : ValueType) : F.scope.Stores type x ↔ p.WordFits σ type x := by
  unfold Scope.Stores WordFits IsScalar
  rw [hword.classify_name]
  by_cases hx : x = "true" ∨ x = "false"
  · rw [if_pos hx, if_pos hx]
    exact beq_iff_eq (a := type)
  · rw [if_neg hx, if_neg hx]
    simp only [h.resolves_iff]

/-- **What is checked about a node with another plain value**: only that
value, against the type of the place. -/
theorem Situation.checked_withPlainValue_iff (h : p.Situation σ ctx F) {node : Node}
    (hchecked : node.Checked d.vocabulary ctx F) (hx : node.plainValue? = some x) :
    ∃ type, p.StoresAs σ type node ∧
      ∀ y, (node.withPlainValue y).Checked d.vocabulary ctx F ↔
        d.vocabulary.Value F.scope type y := by
  obtain ⟨type, name, constant, rfl⟩ | ⟨target, index?, rfl⟩ | rfl := Node.plainValue?_cases hx
  · obtain ⟨htype, hstorable, hname, hnew, -⟩ := hchecked
    refine ⟨type, rfl, fun y => ⟨?_, fun hy => ⟨htype, hstorable, hname, hnew, hy⟩⟩⟩
    rintro ⟨-, -, -, -, hy⟩
    exact hy
  · obtain ⟨htarget, type, hplace, -⟩ := hchecked
    refine ⟨type, h.typedPlace hplace, fun y => ⟨?_, fun hy => ⟨htarget, type, hplace, hy⟩⟩⟩
    rintro ⟨-, type', hplace', hy⟩
    obtain rfl := hplace.type_eq hplace'
    exact hy
  · obtain ⟨-, s, hs, hempty, -⟩ := hchecked
    refine ⟨s.returnType, ⟨s, h.function?_eq ▸ hs, rfl⟩, fun y => ⟨?_, fun hy => ?_⟩⟩
    · rintro ⟨hoperand, s', hs', -, hy⟩
      obtain rfl := Option.some.inj (hs.symm.trans hs')
      exact ⟨hoperand y rfl, hy⟩
    · refine ⟨?_, s, hs, hempty, hy.2⟩
      rintro _ ⟨⟩
      exact hy.1

/-- **Which names can be stored.** If the value that a node stores is a name,
it is a truth value in a place for one, or means a single value of the type of
the place. Another name in its place is read exactly under this condition. -/
theorem ofText_word_iff {library : Bool} {source : String} {p : Program} {warnings : List Warning}
    (h : ofText d library source = .ok (p, warnings)) {σ : Site} {node : Node}
    (hσ : p.at? σ = some node) {x : String} (hx : node.plainValue? = some x)
    (hword : Lexeme d .identifier x) :
    ∃ type, p.StoresAs σ type node ∧ p.WordFits σ type x ∧
      ∀ y, Lexeme d .identifier y →
        ((p.modifyAt σ (Node.withPlainValue y)).IsRead d library ↔ p.WordFits σ type y) := by
  obtain ⟨ctx, F, hchecked, -, hsituation, hexchange⟩ := (accepted_of_ofText h).exchange hσ
  obtain ⟨type, hplace, hvalue⟩ := hsituation.checked_withPlainValue_iff hchecked hx
  refine ⟨type, hplace, ?_, fun y hy => ?_⟩
  · rw [← hsituation.stores_iff hword]
    exact ((hvalue x).mp (by rwa [Node.withPlainValue_self hx])).2
  · rw [hexchange _ (Node.interchangeable_withPlainValue hx y), hvalue y,
      ← hsituation.stores_iff hy]
    exact and_iff_right ⟨.identifier, rfl, hy⟩

/-- Two numbers, one of them called `true`, and a variable that starts with
the other. -/
def numberCalledTrue : Program :=
  ⟨[.declare ⟨.i32, "true", .value "5", true⟩, .declare ⟨.i32, "x", .value "1", true⟩,
    .declare ⟨.i32, "y", .value "x", true⟩]⟩

/-- The variable can start with the one number but not with the other,
although its name means a number of the right type: the name looks like a
truth value, and is taken for one. -/
theorem ofText_word_iff_number :
    ofText .legacy false "dec i32 true 5\ndec i32 x 1\ndec i32 y x" = .ok (numberCalledTrue, []) ∧
      numberCalledTrue.IsScalar [2] "x" .i32 ∧
      numberCalledTrue.Means [2] "true" (.declared ⟨"true", .i32, .scalar true⟩) ∧
      ¬(numberCalledTrue.modifyAt [2] (Node.withPlainValue "true")).IsRead .legacy false := by
  have hread : ofText .legacy false "dec i32 true 5\ndec i32 x 1\ndec i32 y x" =
      .ok (numberCalledTrue, []) := by decide +kernel
  have hmeans : numberCalledTrue.Means [2] "true" (.declared ⟨"true", .i32, .scalar true⟩) :=
    ⟨⟨[0], by decide, _, rfl, rfl⟩, rfl⟩
  obtain ⟨type, hplace, hfits, hother⟩ := ofText_word_iff (σ := [2]) hread rfl rfl
    (by decide +kernel : Lexeme .legacy .identifier "x")
  obtain rfl : type = .i32 := hplace
  refine ⟨hread, ?_, hmeans, fun hexchanged => ?_⟩
  · rwa [WordFits, if_neg (by decide)] at hfits
  · have hbool := (hother "true" (by decide +kernel)).mp hexchanged
    rw [WordFits, if_pos (.inl rfl)] at hbool
    cases hbool

/-- A truth value in a text of the small dialect. -/
def truthWord : Program := ⟨[.declare ⟨.bool, "b", .value "true", true⟩]⟩

/-- **A name is stored that means nothing**: in the small dialect `true` is a
name, and the text is read although nothing is declared before. -/
theorem ofText_word_means_nothing :
    ofText .legacy false "dec bool b true" = .ok (truthWord, []) ∧
      Lexeme .legacy .identifier "true" ∧ ∀ m, ¬truthWord.Means [0] "true" m := by
  refine ⟨by decide +kernel, by decide +kernel, fun m hm => ?_⟩
  obtain hbound | ⟨δ, hlt, node, hδ, -⟩ := hm.bound_or_declared
  · cases hbound
  · cases δ with
    | nil => cases hδ
    | cons i δ => simp [List.cons_lt_cons_iff] at hlt

end Program

end MapleCompiler
