import MapleCompiler.Program.Equality
import MapleCompiler.Proofs.Emission.Header
import MapleCompiler.Proofs.Typing.Bounds

/-!
# Indices in generated code

The index of an element is written into the code as it stands in the text. The reader
takes it as a number in base ten (`Literal.index?`), however many zeros come first. In
C++ the same text is an integer literal, and a leading zero makes it one in base eight
(`Cpp.integer?`). So what is checked against the size of the array and what selects the
element are two readings of one text.

They agree exactly on the texts without a leading zero that are not too large for a
literal, and on the numbers below eight (`Cpp.integer?_eq_iff`). Where they do not, the
text is no literal at all, or selects an earlier element (`Cpp.le_of_integer?`), so that
the code stays inside of its arrays. `Program.ofText_index_iff` says this of every
literal index of a program that is read.
-/

namespace MapleCompiler

namespace Cpp

/-! ## Integer literals of C++ -/

/-- Whether a text begins with a zero. -/
def hasLeadingZero (x : String) : Bool := x.toList.head? == some '0'

/-- The base of an integer literal. -/
def literalBase (x : String) : Nat := if hasLeadingZero x then 8 else 10

/-- The first number that an integer literal is too small for. Only signed
types are tried for a literal in base ten. -/
def literalLimit (x : String) : Nat := if hasLeadingZero x then 2 ^ 64 else 2 ^ 63

-- decided along the text: an instance for all characters would go through every one there is
local instance decidableForallMem (cs : List Char) (p : Char → Prop) [DecidablePred p] :
    Decidable (∀ c ∈ cs, p c) :=
  List.decidableBAll p cs

/-- **The number of a text as an integer literal** in C++, for texts of
digits. In base eight there are no digits eight and nine. -/
def integer? (x : String) : Option Nat :=
  let n := Nat.ofDigits (literalBase x) (Literal.digits x)
  if x ≠ "" ∧ (∀ c ∈ x.toList, c.isDigit = true) ∧ (∀ i ∈ Literal.digits x, i < literalBase x) ∧
      n < literalLimit x then some n
  else none

variable {x : String} {n m : Nat}

theorem integer?_eq_some :
    integer? x = some m ↔
      (x ≠ "" ∧ ∀ c ∈ x.toList, c.isDigit = true) ∧
        ((∀ i ∈ Literal.digits x, i < literalBase x) ∧
          Nat.ofDigits (literalBase x) (Literal.digits x) = m) ∧ m < literalLimit x := by
  unfold integer?
  dsimp only
  rw [Option.ite_none_right_eq_some, Option.some.injEq]
  constructor
  · rintro ⟨⟨hne, hdigits, hbase, hlt⟩, rfl⟩
    exact ⟨⟨hne, hdigits⟩, ⟨hbase, rfl⟩, hlt⟩
  · rintro ⟨⟨hne, hdigits⟩, ⟨hbase, rfl⟩, hlt⟩
    exact ⟨⟨hne, hdigits, hbase, hlt⟩, rfl⟩

/-- **Bases eight and ten give one number exactly if it is below eight**, and
then all digits are. -/
theorem ofDigits_eight_eq_iff (L : List Nat) (hL : ∀ i ∈ L, i < 10) :
    (∀ i ∈ L, i < 8) ∧ Nat.ofDigits 8 L = Nat.ofDigits 10 L ↔ Nat.ofDigits 10 L < 8 := by
  cases L with
  | nil => simp
  | cons i L =>
    have hle : Nat.ofDigits 8 L ≤ Nat.ofDigits 10 L := Nat.ofDigits_monotone L (by decide)
    rw [Nat.ofDigits_cons, Nat.ofDigits_cons, List.forall_mem_cons]
    constructor
    · rintro ⟨⟨hi, -⟩, heq⟩
      omega
    · intro hlt
      -- all digits but the last one are zeros
      have hzero : Nat.ofDigits 10 L = 0 := by omega
      refine ⟨⟨by omega, fun j hj => ?_⟩, by omega⟩
      rw [Nat.digits_zero_of_eq_zero (by decide) hzero j hj]
      decide

theorem lt_ten_of_mem_digits (hx : ∀ c ∈ x.toList, c.isDigit = true) :
    ∀ i ∈ Literal.digits x, i < 10 := by
  intro i hi
  rw [Literal.digits, List.mem_reverse] at hi
  obtain ⟨c, hc, rfl⟩ := List.mem_map.mp hi
  exact Literal.digit_lt_ten (hx c hc)

/-- **When an index is the same number in C++**: if it is below eight, or if
it has no zero before it and fits in a signed word. With a zero before it, it
is read in base eight. -/
theorem integer?_eq_iff (h : Literal.index? x = some n) :
    integer? x = some n ↔ n < 8 ∨ hasLeadingZero x = false ∧ n < 2 ^ 63 := by
  obtain ⟨hne, hdigits, rfl⟩ := Literal.denotes_of_index? h
  have hten := lt_ten_of_mem_digits hdigits
  have hlt : Nat.ofDigits 10 (Literal.digits x) < 2 ^ 64 := Literal.index?_lt h
  rw [integer?_eq_some, and_iff_right ⟨hne, hdigits⟩]
  unfold literalBase literalLimit
  cases hasLeadingZero x with
  | true =>
    rw [if_pos rfl, if_pos rfl, and_iff_left hlt, ofDigits_eight_eq_iff _ hten]
    simp
  | false =>
    rw [if_neg Bool.false_ne_true, if_neg Bool.false_ne_true, and_iff_right ⟨hten, rfl⟩]
    simp only [true_and]
    omega

/-- **A literal never selects an element after the one that is meant**: in
base eight the same digits are a smaller number, or the same. -/
theorem le_of_integer? (h : Literal.index? x = some n) (hm : integer? x = some m) : m ≤ n := by
  obtain ⟨-, -, rfl⟩ := Literal.denotes_of_index? h
  obtain ⟨-, ⟨-, rfl⟩, -⟩ := integer?_eq_some.mp hm
  refine Nat.ofDigits_monotone _ ?_
  unfold literalBase
  split
  · decide
  · decide

end Cpp

/-! ## Indexed elements -/

/-- The array and the index of the element that a node sets or prints. -/
def Node.indexed? : Node → Option (String × String)
  | .assign ⟨target, some index, _⟩ => some (target, index)
  | .output name (some index) => some (name, index)
  | _ => none

variable {node : Node} {name index : String}

theorem Node.indexed?_cases (h : node.indexed? = some (name, index)) :
    (∃ value, node = .assign ⟨name, some index, value⟩) ∨ node = .output name (some index) := by
  unfold indexed? at h
  split at h
  · cases h
    exact .inl ⟨_, rfl⟩
  · cases h
    exact .inr rfl
  · cases h

/-- The array is one, and the index selects an element of it. -/
theorem Node.Checked.selects {V : Vocabulary} {ctx : Context} {F : Facts}
    (h : node.Checked V ctx F) (hnode : node.indexed? = some (name, index)) :
    ∃ m shape kind, F.scope.resolve? name = some m ∧ m.shape? = some shape ∧
      V.word kind index ∧ F.scope.Selects shape kind index := by
  obtain ⟨value, rfl⟩ | rfl := indexed?_cases hnode
  · obtain ⟨-, type, ⟨kind, -, hword, m, hm, -, -, shape, hshape, hselects⟩, -⟩ := h
    exact ⟨m, shape, kind, hm, hshape, hword, hselects⟩
  · obtain ⟨-, type, shape, ⟨m, hm, -, hshape⟩, kind, -, hword, hselects⟩ := h
    exact ⟨m, shape, kind, hm, hshape, hword, hselects⟩

open Cpp

/-- The element is on the line of the node, with the text of its index as it
was written. -/
theorem Cpp.mentions_indexed (names : Names) (hnode : node.indexed? = some (name, index)) :
    isWritten node = true ∧ Mentions (lineText names node) (name ++ "[" ++ index ++ "]") := by
  obtain ⟨value, rfl⟩ | rfl := Node.indexed?_cases hnode
  · exact ⟨rfl, (((mentions_self _).append _).append _).append _⟩
  · exact ⟨rfl, ((mentions_self _).prepend _).append _⟩

namespace Program

variable {p : Program} {σ : Site}

/-- **The trace of a unit** in a mode. -/
def traceIn (p : Program) : Cpp.Mode → Trace
  | .program => p.trace
  | .library => p.headerTrace

theorem cpp_eq_render_traceIn (p : Program) (mode : Cpp.Mode) :
    p.cpp mode = render (p.traceIn mode).lines := by
  cases mode with
  | program => exact congrArg render p.lines_trace.symm
  | library => exact congrArg render p.lines_headerTrace.symm

theorem Accepted.exists_mem_traceIn {V : Vocabulary} {d : Dialect} {mode : Cpp.Mode}
    {warnings : List (String × String)} (h : p.Accepted V d mode.isLibrary warnings)
    (hσ : p.at? σ = some node) (hnode : isWritten node = true) :
    ∃ depth, (some σ, ⟨depth, lineText (Names.ofProgram p) node⟩) ∈ p.traceIn mode := by
  cases mode with
  | program => exact p.exists_mem_trace hσ hnode
  | library => exact h.exists_mem_headerTrace hσ hnode

/-- **A literal index is a number below the size of its array**, the one that
the reader takes it for. -/
theorem Situation.exists_index {ctx : Context} {F : Facts} (h : p.Situation σ ctx F)
    {library : Bool} {warnings : List (String × String)}
    (haccepted : p.Accepted Dialect.maple.vocabulary .maple library warnings)
    (hchecked : node.Checked Dialect.maple.vocabulary ctx F)
    (hnode : node.indexed? = some (name, index))
    (hliteral : (Literal.classify index).isSome = true) :
    ∃ n δ size values, Literal.index? index = some n ∧ p.ArrayAt σ name δ size values ∧
      n < size := by
  obtain ⟨m, shape, kind, hm, hshape, hword, hselects⟩ := hchecked.selects hnode
  obtain ⟨δ, harray⟩ := h.arrayAt haccepted hm hshape
  obtain ⟨n, hn, hlt⟩ := hselects.exists_index hword hliteral
  exact ⟨n, δ, shape.size, shape.values, hn, harray, hlt⟩

/-- **Literal indices in generated code.** The line of a node that sets or
prints an element has the index as it is written in the text, a number below
the size of the array. As an integer literal of C++ it is well formed and the
same number exactly if this is below eight, or if there is no leading zero and
the number fits in a signed word. If it is another number, this is a smaller
one. -/
theorem ofText_index_iff {mode : Cpp.Mode} {source : String} {p : Program}
    {warnings : List Warning} (h : ofText .maple mode.isLibrary source = .ok (p, warnings))
    {σ : Site} {node : Node} {name index : String} (hσ : p.at? σ = some node)
    (hnode : node.indexed? = some (name, index))
    (hliteral : (Literal.classify index).isSome = true) :
    (p.cpp mode = render (p.traceIn mode).lines ∧
      ∃ line, (some σ, line) ∈ p.traceIn mode ∧
        Mentions line.text (name ++ "[" ++ index ++ "]")) ∧
    ∃ n δ size values, Literal.index? index = some n ∧ p.ArrayAt σ name δ size values ∧
      n < size ∧
      (integer? index = some n ↔ n < 8 ∨ hasLeadingZero index = false ∧ n < 2 ^ 63) ∧
      ∀ m, integer? index = some m → m ≤ n := by
  have haccepted := accepted_of_ofText h
  obtain ⟨ctx, F, hchecked, -, hsituation⟩ :=
    haccepted.situation (Facts.invariant_true _) trivial hσ
  constructor
  · obtain ⟨hwritten, hmentions⟩ := mentions_indexed (Names.ofProgram p) hnode
    obtain ⟨depth, hmem⟩ := haccepted.exists_mem_traceIn hσ hwritten
    exact ⟨p.cpp_eq_render_traceIn mode, _, hmem, hmentions⟩
  · obtain ⟨n, δ, size, values, hn, harray, hlt⟩ :=
      hsituation.exists_index haccepted hchecked hnode hliteral
    exact ⟨n, δ, size, values, hn, harray, hlt, integer?_eq_iff hn, fun m => le_of_integer? hn⟩

/-- A library that sets and prints elements of an array. -/
def indexedLibrary : Program :=
  ⟨[.declare ⟨.i32, "a", .array 12 [], false⟩,
    .function ⟨.empty, "f", []⟩ [.assign ⟨"a", some "07", .plain "5"⟩, .output "a" (some "11")]]⟩

/-- A single digit after a zero, and digits without one, are the same numbers
in the header. -/
theorem ofText_index_iff_header :
    ofText .maple true "dec ch i32 a [ ] 12\nfnc empty f : :\nset a[07] 5\nout a[11]\nend" =
        .ok (indexedLibrary, []) ∧
      (∃ line, (some [1, 0], line) ∈ indexedLibrary.headerTrace ∧
        Mentions line.text "a[07]") ∧
      Literal.index? "07" = some 7 ∧ integer? "07" = some 7 ∧
      Literal.index? "11" = some 11 ∧ integer? "11" = some 11 := by
  have hread : ofText .maple Cpp.Mode.library.isLibrary
      "dec ch i32 a [ ] 12\nfnc empty f : :\nset a[07] 5\nout a[11]\nend" =
      .ok (indexedLibrary, []) := by decide +kernel
  have hseven : Literal.index? "07" = some 7 := by decide +kernel
  have heleven : Literal.index? "11" = some 11 := by decide +kernel
  obtain ⟨⟨-, hline⟩, n, _, _, _, hn, -, -, hiff, -⟩ :=
    ofText_index_iff (σ := [1, 0]) hread rfl rfl (by decide +kernel)
  obtain ⟨-, k, _, _, _, hk, -, -, hiff', -⟩ :=
    ofText_index_iff (σ := [1, 1]) hread rfl rfl (by decide +kernel)
  cases hseven.symm.trans hn
  cases heleven.symm.trans hk
  exact ⟨hread, hline, hseven, hiff.mpr (.inl (by decide)), heleven,
    hiff'.mpr (.inr ⟨by decide, by decide⟩)⟩

/-- A program with zeros before the digits of its indices. -/
def octalIndices : Program :=
  ⟨[.declare ⟨.i32, "a", .array 12 [], false⟩, .assign ⟨"a", some "010", .plain "5"⟩,
    .output "a" (some "09")]⟩

/-- **A checked index can be another one in the code**: the text is read, and
its indices are checked as ten and nine. The code has them as they are, and
there the first one is eight, and the second one is no number. -/
theorem ofText_index_octal :
    ofText .maple false "dec ch i32 a [ ] 12\nset a[010] 5\nout a[09]" =
        .ok (octalIndices, []) ∧
      (octalIndices.at? [1] = some (.assign ⟨"a", some "010", .plain "5"⟩) ∧
        ⟨1, "a[010] = 5;"⟩ ∈ programLines .program octalIndices ∧
        Literal.index? "010" = some 10 ∧ integer? "010" = some 8) ∧
      octalIndices.at? [2] = some (.output "a" (some "09")) ∧
        ⟨1, "std::cout << a[09] << std::endl;"⟩ ∈ programLines .program octalIndices ∧
        Literal.index? "09" = some 9 ∧ integer? "09" = none := by
  have height : integer? "010" = some 8 := by
    simp [integer?, literalBase, literalLimit, hasLeadingZero, Literal.digits, Nat.ofDigits]
  have hnone : integer? "09" = none := by
    simp [integer?, literalBase, literalLimit, hasLeadingZero, Literal.digits]
  exact ⟨by decide +kernel, ⟨rfl, by decide +kernel, by decide +kernel, height⟩, rfl,
    by decide +kernel, by decide +kernel, hnone⟩

end Program

end MapleCompiler
