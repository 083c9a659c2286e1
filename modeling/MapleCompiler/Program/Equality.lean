import MapleCompiler.Program.Basic

/-!
# Deciding whether two programs are the same

A node may have a body, which is a list of nodes again, so no instance is derived for them.
Two nodes are compared together with their bodies (`Node.beq`, `Node.beqAll`), and the
comparison tells whether they are equal. With it one can run a reader on a text and decide
whether it gives a certain program.
-/

namespace MapleCompiler

namespace Node

mutual

/-- Whether two nodes are the same. -/
def beq : Node → Node → Bool
  | .run count body, .run count' body' => count == count' && beqAll body body'
  | .declare v, .declare v' => v == v'
  | .assign a, .assign a' => a == a'
  | .output name index?, .output name' index?' => name == name' && index? == index?'
  | .ifThen c body, .ifThen c' body' => c == c' && beqAll body body'
  | .elseIf c body, .elseIf c' body' => c == c' && beqAll body body'
  | .otherwise body, .otherwise body' => beqAll body body'
  | .endIf, .endIf => true
  | .loop i start stop body, .loop i' start' stop' body' =>
    i == i' && start == start' && stop == stop' && beqAll body body'
  | .endLoop, .endLoop => true
  | .save name, .save name' => name == name'
  | .restore name, .restore name' => name == name'
  | .function s body, .function s' body' => s == s' && beqAll body body'
  | .giveBack value?, .giveBack value?' => value? == value?'
  | .call c, .call c' => c == c'
  | .calculate c, .calculate c' => c == c'
  | .useLibrary name span, .useLibrary name' span' => name == name' && span == span'
  | .openNamespace name, .openNamespace name' => name == name'
  | .qualifiedCall library c, .qualifiedCall library' c' => library == library' && c == c'
  | _, _ => false

/-- Whether two lists of nodes are the same. -/
def beqAll : List Node → List Node → Bool
  | [], [] => true
  | node :: rest, node' :: rest' => beq node node' && beqAll rest rest'
  | _, _ => false

end

/-- **Nodes compare as the same if they are equal**, and so do lists of them. By induction along
the comparison: where it goes on, the parts are equal; where it gives up, the two begin
differently. -/
theorem beq_eq_true_iff : (∀ node node' : Node, beq node node' = true ↔ node = node') ∧
    ∀ nodes nodes' : List Node, beqAll nodes nodes' = true ↔ nodes = nodes' := by
  apply beq.mutual_induct
  case case20 =>
    intro node node'
    intros
    refine ⟨fun h => ?_, ?_⟩
    · simp_all [beq]
    · rintro rfl
      cases node <;> grind
  case case23 =>
    intro nodes nodes'
    intros
    refine ⟨fun h => ?_, ?_⟩
    · simp_all [beqAll]
    · rintro rfl
      cases nodes <;> grind
  all_goals
    intros
    simp_all [beq, beqAll, and_assoc]

instance : DecidableEq Node := fun node node' =>
  decidable_of_iff (beq node node' = true) (beq_eq_true_iff.1 node node')

end Node

deriving instance DecidableEq for Program

end MapleCompiler
