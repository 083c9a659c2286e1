import MapleCompiler.Program.Equality
import MapleCompiler.Proofs.Language.Index
import MapleCompiler.Proofs.Scoping.Resolution

/-!
# Indices in bounds

An index that is written as a number is checked when a program is read, against
what is known of the array at that place. `Program.InBounds` says what this is
worth, and looks at the program only: the size that counts is the one in the
*declaring node* of the array, wherever that node stands, and the index is the
number that its digits denote in base ten, however many there are.

Main statement: every node of a program that is read has its literal indices in
bounds (`Program.ofText_inBounds`). Two facts carry it. A name that means an
array at a site means the array of one declaring node, which comes before the
site (`Program.Situation.arrayAt`); and in the full dialect no name looks like a
literal (`Lexeme.classify_identifier`), so that an index with the text of a
literal was checked as one.
-/

namespace MapleCompiler

/-! ## Literals and names -/

namespace Literal

/-- A literal is a truth value, or begins with a digit. -/
theorem head_of_classify {x : String} {literal : Literal} (h : classify x = some literal) :
    (x = "true" ∨ x = "false") ∨ ∃ c cs, x.toList = c :: cs ∧ c.isDigit = true := by
  obtain ⟨-, hbool⟩ | ⟨-, hne, hdigits⟩ | ⟨-, whole, fraction, hx, hne, hwhole, -⟩ :=
    classify_cases h
  · exact .inl hbool
  · obtain ⟨c, cs, hx⟩ := List.exists_cons_of_ne_nil hne
    exact .inr ⟨c, cs, hx, hdigits c (hx ▸ List.mem_cons_self)⟩
  · obtain ⟨c, cs, rfl⟩ := List.exists_cons_of_ne_nil hne
    exact .inr ⟨c, cs ++ '.' :: fraction, hx, hwhole c List.mem_cons_self⟩

end Literal

/-- A name does not begin with a digit: what does is read as a number. -/
theorem Lexeme.isDigit_head {d : Dialect} {x : String} {c : Char} {cs : List Char}
    (h : Lexeme d .identifier x) (hx : x.toList = c :: cs) : c.isDigit = false := by
  obtain ⟨c', cs', hx', hread⟩ := h
  obtain ⟨rfl, rfl⟩ := List.cons.inj (hx.symm.trans hx')
  by_contra hdigit
  rw [Bool.not_eq_false] at hdigit
  unfold Piece.read at hread
  rw [if_pos hdigit] at hread
  split at hread
  · cases hread
  split at hread
  · cases hread
  · cases Piece.kind_of_number hread

/-- **In the full dialect no name looks like a literal**: truth values are
reserved words there. In the small one they are names, so this does not hold
of it. -/
theorem Lexeme.classify_identifier {x : String} (h : Lexeme .maple .identifier x) :
    Literal.classify x = none := by
  cases hc : Literal.classify x with
  | none => rfl
  | some literal =>
    exfalso
    obtain (rfl | rfl) | ⟨c, cs, hx, hdigit⟩ := Literal.head_of_classify hc
    · cases h.unique (show Lexeme .maple (.boolean true) "true" by decide +kernel)
    · cases h.unique (show Lexeme .maple (.boolean false) "false" by decide +kernel)
    · rw [h.isDigit_head hx] at hdigit
      cases hdigit

/-! ## Arrays and their indices -/

/-- A literal that selects an element was checked as one: it is no name, since
in the full dialect no name looks like a literal. -/
theorem Scope.Selects.exists_index {s : Scope} {shape : ArrayShape} {kind : TokenKind}
    {index : String} (h : s.Selects shape kind index) (hword : Lexeme .maple kind index)
    (hliteral : (Literal.classify index).isSome = true) :
    ∃ n, Literal.index? index = some n ∧ n < shape.size := by
  have hkind : kind ≠ .identifier := by
    rintro rfl
    rw [hword.classify_identifier] at hliteral
    cases hliteral
  exact (s.selects_literal hkind).mp h

namespace Program

variable (p : Program)

/-- **The array that a name stands for at a site**: the one that the node at
`δ` declares. It comes before the site, no other node declares the name, and
nothing around the site binds it. -/
structure ArrayAt (σ : Site) (x : String) (δ : Site) (size : Nat) (values : List String) :
    Prop where
  declared : ∃ v, p.at? δ = some (.declare v) ∧ v.name = x ∧ v.initializer = .array size values
  before : δ < σ
  only : ∀ δ', p.Declares δ' x → δ' = δ
  free : x ∉ p.boundAt σ

/-- **An index of an array is in bounds**: if it is a literal, it denotes a
number below the declared size. -/
def IndexInBounds (σ : Site) (array index : String) : Prop :=
  ∃ δ size values, p.ArrayAt σ array δ size values ∧
    ((Literal.classify index).isSome = true → ∃ n, Literal.Denotes index n ∧ n < size)

/-- The size of an array fits in a word, and its values in the array. -/
def SizeInBounds : Initializer → Prop
  | .array size values => 0 < size ∧ size < 2 ^ 64 ∧ values.length ≤ size
  | _ => True

/-- A copied literal is the value that its array has at the index. -/
def CopyInBounds (σ : Site) : AssignedValue → Prop
  | .copied array i literal =>
    ∃ δ size values, p.ArrayAt σ array δ size values ∧ i < values.length ∧
      values[i]? = some literal
  | _ => True

/-- **A node has its sizes and literal indices in bounds** at its site. -/
def InBounds (σ : Site) : Node → Prop
  | .declare v => SizeInBounds v.initializer
  | .assign a =>
    (∀ index, a.index? = some index → p.IndexInBounds σ a.target index) ∧
      p.CopyInBounds σ a.value
  | .output name index? => ∀ index, index? = some index → p.IndexInBounds σ name index
  | _ => True

variable {p} {σ : Site} {ctx : Context} {F : Facts} {x : String}

/-- **A name that means an array means that of its declaring node.** Nothing
else declares the name, so its size and its literals can be read off the
program. -/
theorem Situation.arrayAt (h : p.Situation σ ctx F) {V : Vocabulary} {d : Dialect}
    {library : Bool} {warnings : List (String × String)}
    (haccepted : p.Accepted V d library warnings) {m : Meaning} {shape : ArrayShape}
    (hm : F.scope.resolve? x = some m) (hshape : m.shape? = some shape) :
    ∃ δ, p.ArrayAt σ x δ shape.size shape.values := by
  have hmeans := (h.resolve?_iff x m).mp hm
  cases m with
  | bound type => cases hshape
  | declared symbol =>
    obtain ⟨⟨δ, hlt, node, hδ, hsymbol⟩, rfl⟩ := hmeans
    -- only the symbol of an array has a shape, so the node declares one
    have hnode : ∃ v, node = .declare v ∧ v.name = symbol.name ∧
        v.initializer = .array shape.size shape.values := by
      cases node with
      | declare v =>
        obtain rfl := Option.some.inj hsymbol
        refine ⟨v, rfl, rfl, ?_⟩
        cases hi : v.initializer with
        | array size values =>
          rw [Meaning.shape?, Declaration.symbol, hi] at hshape
          obtain rfl := Option.some.inj hshape
          rfl
        | value y => rw [Meaning.shape?, Declaration.symbol, hi] at hshape; cases hshape
        | call c => rw [Meaning.shape?, Declaration.symbol, hi] at hshape; cases hshape
      | function s body =>
        obtain rfl := Option.some.inj hsymbol
        cases hshape
      | _ => cases hsymbol
    obtain ⟨v, rfl, hname, hinitial⟩ := hnode
    have hdeclares : p.Declares δ symbol.name := ⟨_, hδ, congrArg some hname⟩
    refine ⟨δ, ⟨v, hδ, hname, hinitial⟩, hlt, fun δ' hδ' => ?_, fun hbound => ?_⟩
    · exact haccepted.declares_unique hδ' hdeclares
    · rw [boundAt, Node.boundAt_eq] at hbound
      obtain ⟨⟨_, type⟩, hmem, rfl⟩ := List.mem_map.mp hbound
      cases h.means_unique (m := .bound type) hmem ((h.resolve?_iff _ _).mp hm)

/-- An index that selects an element is in bounds of the array that the
program declares, if it is a literal. -/
theorem Situation.indexInBounds (h : p.Situation σ ctx F) {library : Bool}
    {warnings : List (String × String)}
    (haccepted : p.Accepted Dialect.maple.vocabulary .maple library warnings) {m : Meaning}
    {shape : ArrayShape} (hm : F.scope.resolve? x = some m) (hshape : m.shape? = some shape)
    {kind : TokenKind} {index : String} (hword : Lexeme .maple kind index)
    (hselects : F.scope.Selects shape kind index) : p.IndexInBounds σ x index := by
  obtain ⟨δ, harray⟩ := h.arrayAt haccepted hm hshape
  refine ⟨δ, shape.size, shape.values, harray, fun hliteral => ?_⟩
  obtain ⟨n, hn, hlt⟩ := hselects.exists_index hword hliteral
  exact ⟨n, Literal.denotes_of_index? hn, hlt⟩

/-- **Sizes and literal indices of a program that is read are in bounds.** By
cases on the node at the site; indices that are names are left to run time. -/
theorem ofText_inBounds {library : Bool} {source : String} {p : Program}
    {warnings : List Warning} (h : ofText .maple library source = .ok (p, warnings)) {σ : Site}
    {node : Node} (hσ : p.at? σ = some node) : p.InBounds σ node := by
  have haccepted := accepted_of_ofText h
  obtain ⟨ctx, F, hchecked, -, hsituation⟩ :=
    haccepted.situation (Facts.invariant_true _) trivial hσ
  cases node with
  | declare v =>
    obtain ⟨-, -, -, -, hinitial⟩ := hchecked
    show SizeInBounds v.initializer
    cases hi : v.initializer with
    | array size values =>
      rw [hi] at hinitial
      obtain ⟨hpos, hlt, hlength, -⟩ := hinitial
      exact ⟨hpos, hlt, hlength⟩
    | value y => trivial
    | call c => trivial
  | assign a =>
    obtain ⟨-, type, hplace, hvalue⟩ := hchecked
    constructor
    · intro index hindex
      rw [hindex] at hplace
      obtain ⟨kind, -, hword, m, hm, -, -, shape, hshape, hselects⟩ := hplace
      exact hsituation.indexInBounds haccepted hm hshape hword hselects
    · cases ha : a.value with
      | copied array i literal =>
        rw [ha] at hvalue
        obtain ⟨-, -, shape, ⟨m, hm, -, hshape⟩, -, hliteral⟩ := hvalue
        obtain ⟨δ, harray⟩ := hsituation.arrayAt haccepted hm hshape
        exact ⟨δ, _, _, harray, (List.getElem?_eq_some_iff.mp hliteral).1, hliteral⟩
      | plain y => trivial
      | element array index => trivial
  | output name index? =>
    intro index hindex
    obtain ⟨-, hprintable⟩ := hchecked
    rw [hindex] at hprintable
    obtain ⟨type, shape, ⟨m, hm, -, hshape⟩, kind, -, hword, hselects⟩ := hprintable
    exact hsituation.indexInBounds haccepted hm hshape hword hselects
  | _ => trivial

/-- A program that declares an array in a branch and selects its elements
after it, with zeros before the digits. -/
def selectingProgram : Program :=
  ⟨[.ifThen ⟨"1", .equal, "1"⟩ [.declare ⟨.i32, "a", .array 12 ["4", "5"], false⟩], .endIf,
    .declare ⟨.i32, "x", .value "0", false⟩, .assign ⟨"a", some "011", .copied "a" 1 "5"⟩,
    .output "a" (some "00")]⟩

theorem ofText_inBounds_branch :
    ofText .maple false
        ("if 1 == 1\ndec ch i32 a [ ] 012 -> { 4 , 5 }\nend\ndec ch i32 x 0\n" ++
          "set a[011] a[01]\nout a[00]") = .ok (selectingProgram, []) ∧
      SizeInBounds (.array 12 ["4", "5"]) ∧
      selectingProgram.InBounds [3] (.assign ⟨"a", some "011", .copied "a" 1 "5"⟩) ∧
      selectingProgram.InBounds [4] (.output "a" (some "00")) ∧
      Literal.Denotes "011" 11 ∧ (Literal.classify "011").isSome = true := by
  have hread : ofText .maple false
      ("if 1 == 1\ndec ch i32 a [ ] 012 -> { 4 , 5 }\nend\ndec ch i32 x 0\n" ++
        "set a[011] a[01]\nout a[00]") = .ok (selectingProgram, []) := by decide +kernel
  refine ⟨hread, ?_, ofText_inBounds hread rfl, ofText_inBounds hread rfl, ?_, rfl⟩
  · exact ofText_inBounds (σ := [0, 0]) hread rfl
  · exact Literal.denotes_of_index? (by decide +kernel)

end Program

end MapleCompiler
