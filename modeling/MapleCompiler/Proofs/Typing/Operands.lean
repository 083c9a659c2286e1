import MapleCompiler.Program.Equality
import MapleCompiler.Proofs.Acceptance.Exchange
import MapleCompiler.Proofs.Typing.Bounds
import MapleCompiler.Proofs.Typing.Soundness

/-!
# The operands of calculations

A calculation has two operands and a place for its result, which is the left operand
if there is no other. The place is looked at closely: it is a single number that may be
changed, and an integer for remainders (`Program.Receives`). The operands themselves
only have to mean something, whatever that is: a truth value, an array or a function
will do, and so will a decimal for a remainder.

So an operand is a number (`Program.IsNumber`) for sure only if it is also the place of
the result. `Program.ofText_operands_iff` says both: the left operand of a calculation
in place is a number, and apart from this every operand that the site offers is read.
-/

namespace MapleCompiler

/-- The calculation with other operands. -/
def Node.withOperands (x y : String) : Node → Node
  | .calculate c => .calculate ⟨c.op, x, y, c.destination?⟩
  | node => node

/-- What is known after a calculation does not depend on its operands, so they
may be exchanged without a look at the rest. -/
theorem Node.interchangeable_withOperands (c : Calculation) (x y : String) :
    (Node.calculate c).Interchangeable ((Node.calculate c).withOperands x y) :=
  ⟨rfl, rfl, fun part => by cases part <;> rfl, fun _ => rfl, fun _ => rfl, rfl⟩

namespace Program

variable (p : Program)

/-- The program with other operands in the calculation at a site. -/
def withOperands (σ : Site) (x y : String) : Program := p.modifyAt σ (Node.withOperands x y)

/-- **An operand is a number that an operation is defined for**: a literal of
a number, or the name of a single value of a numeric type. Remainders are
those of integers. -/
def IsNumber (σ : Site) (op : Arithmetic) (x : String) : Prop :=
  (∃ literal, Literal.classify x = some literal ∧ literal ≠ .boolean ∧
    (op = .mod → literal ≠ .decimal)) ∨
  Literal.classify x = none ∧
    ∃ type, p.IsScalar σ x type ∧ type.isNumeric = true ∧ (op = .mod → type.isInteger = true)

/-- **A name can receive the result of an operation**: it is a single value
that may be changed, of a type that holds the result. -/
def Receives (σ : Site) (op : Arithmetic) (x : String) : Prop :=
  ∃ m, p.Resolves σ x m ∧ m.isChangeable = true ∧ m.isScalar = true ∧
    Scope.holdsResult op m.type = true

variable {p} {σ : Site} {ctx : Context} {F : Facts} {op : Arithmetic} {x : String}

/-- A name that means something at a site resolves to nothing else, since it
has one meaning there. -/
theorem Resolves.eq {m m' : Meaning} (h : p.Resolves σ x m) (hm : p.Means σ x m') : m' = m :=
  (h m').mp hm

theorem Situation.resolves_iff (h : p.Situation σ ctx F) {m : Meaning} :
    F.scope.resolve? x = some m ↔ p.Resolves σ x m :=
  ⟨h.resolves, fun hm => (h.resolve?_iff x m).mpr ((hm m).mpr rfl)⟩

theorem Situation.receives_iff (h : p.Situation σ ctx F) :
    F.scope.Receives op x ↔ p.Receives σ op x := by
  unfold Scope.Receives Receives
  simp only [h.resolves_iff]

/-- A name that is read as the place of a result is a number, of a type that
the operation gives results in. -/
theorem Situation.isNumber (h : p.Situation σ ctx F) (hword : Lexeme .maple .identifier x)
    (hreceives : p.Receives σ op x) : p.IsNumber σ op x :=
  .inr ⟨hword.classify_identifier, h.typedResult (h.receives_iff.mpr hreceives)⟩

/-- **What is checked about a calculation with other operands**: that they are
known, and the left one if the result goes there. -/
theorem Situation.checked_withOperands_iff (h : p.Situation σ ctx F) {d : Dialect}
    {c : Calculation} (hchecked : (Node.calculate c).Checked d.vocabulary ctx F) (x y : String) :
    ((Node.calculate c).withOperands x y).Checked d.vocabulary ctx F ↔
      p.Offers d σ x ∧ p.Offers d σ y ∧
        (c.destination? = none → Lexeme d .identifier x ∧ p.Receives σ c.op x) := by
  obtain ⟨hop, -, -, hstored⟩ := hchecked
  rw [← h.known_iff, ← h.known_iff, ← h.receives_iff]
  show _ ∧ _ ∧ _ ∧ Node.Stored _ _ ⟨c.op, x, y, c.destination?⟩ ↔ _
  rw [and_iff_right hop]
  refine and_congr_right fun _ => and_congr_right fun _ => ?_
  unfold Node.Stored at hstored ⊢
  cases hd : c.destination? with
  | none => exact ⟨fun hx _ => hx, fun hx => hx rfl⟩
  | some name =>
    -- the place of the result stays as it is
    rw [hd] at hstored
    exact ⟨fun _ => nofun, fun _ => hstored⟩

/-- **Which operands of calculations are numbers.** The left operand is one if
the result goes there, and an integer for remainders. With other operands the
program is read exactly if these are literals or mean something at the site,
and the left one can receive the result if it has to. So the right operand may
be anything that the site offers, and the left one too if the result goes
elsewhere. -/
theorem ofText_operands_iff {library : Bool} {source : String} {p : Program}
    {warnings : List Warning} (h : ofText .maple library source = .ok (p, warnings)) {σ : Site}
    {c : Calculation} (hσ : p.at? σ = some (.calculate c)) :
    (c.destination? = none → p.IsNumber σ c.op c.left) ∧
      ∀ x y, (p.withOperands σ x y).IsRead .maple library ↔
        p.Offers .maple σ x ∧ p.Offers .maple σ y ∧
          (c.destination? = none → Lexeme .maple .identifier x ∧ p.Receives σ c.op x) := by
  obtain ⟨ctx, F, hchecked, -, hsituation, hexchange⟩ := (accepted_of_ofText h).exchange hσ
  constructor
  · intro hd
    obtain ⟨-, -, hreceives⟩ :=
      (hsituation.checked_withOperands_iff hchecked c.left c.right).mp hchecked
    obtain ⟨hword, hreceives⟩ := hreceives hd
    exact hsituation.isNumber hword hreceives
  · intro x y
    rw [withOperands, hexchange _ (Node.interchangeable_withOperands c x y)]
    exact hsituation.checked_withOperands_iff hchecked x y

/-- A truth value, an array, a changeable number, and calculations with the
number. -/
def calculations : Program :=
  ⟨[.declare ⟨.bool, "b", .value "true", true⟩, .declare ⟨.i32, "a", .array 2 [], true⟩,
    .declare ⟨.i32, "x", .value "7", false⟩, .calculate ⟨.mod, "x", "2", none⟩,
    .calculate ⟨.mul, "2", "3", some "x"⟩]⟩

/-- The remainder is that of a number. Divided by a truth value it is read as
well, but not that of a truth value; the product can be that of an array and a
truth value. -/
theorem ofText_operands_iff_mixed :
    ofText .maple false
        "dec bool b true\ndec i32 a [ ] 2\ndec ch i32 x 7\nmod x 2\nmul 2 3 => x" =
        .ok (calculations, []) ∧
      calculations.IsNumber [3] .mod "x" ∧
      (calculations.withOperands [3] "x" "b").IsRead .maple false ∧
      ¬(calculations.withOperands [3] "b" "2").IsRead .maple false ∧
      (calculations.withOperands [4] "a" "b").IsRead .maple false := by
  have hread : ofText .maple false
      "dec bool b true\ndec i32 a [ ] 2\ndec ch i32 x 7\nmod x 2\nmul 2 3 => x" =
      .ok (calculations, []) := by decide +kernel
  have hb (σ : Site) (hσ : [0] < σ) :
      calculations.Means σ "b" (.declared ⟨"b", .bool, .scalar true⟩) :=
    ⟨⟨[0], hσ, _, rfl, rfl⟩, rfl⟩
  have ha : calculations.Means [4] "a" (.declared ⟨"a", .i32, .array true ⟨2, []⟩⟩) :=
    ⟨⟨[1], by decide, _, rfl, rfl⟩, rfl⟩
  have hword_b : Lexeme .maple .identifier "b" := by decide +kernel
  have hword_a : Lexeme .maple .identifier "a" := by decide +kernel
  -- the program is its own exchange, which tells that `x` receives the remainder
  have hx := ((ofText_operands_iff (σ := [3]) hread rfl).2 "x" "2").mp
    ⟨_, _, _, hread, rfl⟩
  refine ⟨hread, (ofText_operands_iff (σ := [3]) hread rfl).1 rfl, ?_, ?_, ?_⟩
  · exact ((ofText_operands_iff (σ := [3]) hread rfl).2 "x" "b").mpr
      ⟨hx.1, ⟨_, rfl, hword_b, fun _ => ⟨_, hb [3] (by decide)⟩⟩, hx.2.2⟩
  · intro hexchanged
    obtain ⟨-, -, hreceives⟩ := ((ofText_operands_iff (σ := [3]) hread rfl).2 "b" "2").mp hexchanged
    obtain ⟨-, m, hm, hchangeable, -⟩ := hreceives rfl
    obtain rfl := hm.eq (hb [3] (by decide))
    cases hchangeable
  · exact ((ofText_operands_iff (σ := [4]) hread rfl).2 "a" "b").mpr
      ⟨⟨_, rfl, hword_a, fun _ => ⟨_, ha⟩⟩, ⟨_, rfl, hword_b, fun _ => ⟨_, hb [4] (by decide)⟩⟩,
        fun hnone => by cases hnone⟩

/-- Calculations with a truth value, an array and, for a remainder, a
decimal. -/
def oddOperands : Program :=
  ⟨[.declare ⟨.bool, "b", .value "true", true⟩, .declare ⟨.i32, "a", .array 2 [], true⟩,
    .declare ⟨.i32, "x", .value "7", false⟩, .calculate ⟨.add, "x", "b", none⟩,
    .calculate ⟨.mul, "a", "2", some "x"⟩, .calculate ⟨.mod, "x", "1.5", none⟩]⟩

/-- **Operands need not be numbers**: the text is read although a truth value
is added, an array is multiplied, and the remainder of a division by a decimal
is taken. -/
theorem ofText_operand_not_number :
    ofText .maple false
        "dec bool b true\ndec i32 a [ ] 2\ndec ch i32 x 7\nadd x b\nmul a 2 => x\nmod x 1.5" =
        .ok (oddOperands, []) ∧
      (oddOperands.at? [3] = some (.calculate ⟨.add, "x", "b", none⟩) ∧
        ¬oddOperands.IsNumber [3] .add "b") ∧
      (oddOperands.at? [4] = some (.calculate ⟨.mul, "a", "2", some "x"⟩) ∧
        ¬oddOperands.IsNumber [4] .mul "a") ∧
      oddOperands.at? [5] = some (.calculate ⟨.mod, "x", "1.5", none⟩) ∧
        ¬oddOperands.IsNumber [5] .mod "1.5" := by
  have hb : oddOperands.Means [3] "b" (.declared ⟨"b", .bool, .scalar true⟩) :=
    ⟨⟨[0], by decide, _, rfl, rfl⟩, rfl⟩
  have ha : oddOperands.Means [4] "a" (.declared ⟨"a", .i32, .array true ⟨2, []⟩⟩) :=
    ⟨⟨[1], by decide, _, rfl, rfl⟩, rfl⟩
  have hdecimal : Literal.classify "1.5" = some .decimal := by decide +kernel
  have hname_b : Literal.classify "b" = none := by decide +kernel
  have hname_a : Literal.classify "a" = none := by decide +kernel
  refine ⟨by decide +kernel, ⟨rfl, ?_⟩, ⟨rfl, ?_⟩, rfl, ?_⟩
  · rintro (⟨literal, hliteral, -⟩ | ⟨-, type, ⟨m, hm, -, rfl⟩, hnumeric, -⟩)
    · cases hname_b.symm.trans hliteral
    · obtain rfl := hm.eq hb
      cases hnumeric
  · rintro (⟨literal, hliteral, -⟩ | ⟨-, type, ⟨m, hm, hscalar, -⟩, -⟩)
    · cases hname_a.symm.trans hliteral
    · obtain rfl := hm.eq ha
      cases hscalar
  · rintro (⟨literal, hliteral, -, hmod⟩ | ⟨hname, -⟩)
    · exact hmod rfl (Option.some.inj (hliteral.symm.trans hdecimal))
    · cases hdecimal.symm.trans hname

end Program

end MapleCompiler
