import MapleCompiler.Proofs.Acceptance.Soundness
import MapleCompiler.Proofs.Scoping.Blocks

/-!
# What a declaration is seen from

Acceptable nodes close the blocks that they open, so the rest of a block after
the line of a declaration is made of the nodes that follow the declaration in
its list, with all that is inside of them (`Accepts.exists_block`). In a whole
program, a line therefore sees a declaration exactly if its node comes later and
the block of the declaration encloses it (`Program.sees_iff`).
-/

namespace MapleCompiler

open Cpp

/-! ## Nodes that follow in a block -/

/-- **The site `σ` is that of a written node that follows in its block.** The
nodes stand at the site `π`, the first one in place `i`, and `σ` follows the
site `δ` among them. -/
def Later (keep : Node → Bool) (nodes : List Node) (π : Site) (i : Nat) (δ σ : Site) : Prop :=
  ∃ j ρ first node, σ = π ++ (i + j) :: ρ ∧ nodes[j]? = some first ∧ keep first = true ∧
    Node.at? nodes (j :: ρ) = some node ∧ isWritten node = true ∧ Site.Follows δ (j :: ρ)

namespace Later

variable {keep : Node → Bool} {node : Node} {rest : List Node} {π τ σ : Site} {i j k : Nat}

/-- After a declaration come the nodes of the rest of its list, with all that
is inside of them. A declaration has no body of its own. -/
theorem first_iff (names : Names) (depth : Nat) {v : Declaration} :
    Later keep (.declare v :: rest) π i [0] σ ↔
      σ ∈ (traceList keep names depth π (i + 1) rest).sites := by
  rw [mem_sites_traceList]
  constructor
  · rintro ⟨j, ρ, first, node, rfl, hj, hkeep, hat, hwritten, hfollows⟩
    obtain hlt | ⟨rfl, hne⟩ := Site.follows_singleton.mp hfollows
    · obtain ⟨j, rfl⟩ := Nat.exists_eq_add_one.mpr hlt
      rw [Node.at?_later] at hat
      refine ⟨j, ρ, first, node, ?_, hj, hkeep, hat, hwritten⟩
      rw [Nat.add_right_comm]
      rfl
    -- nothing is inside of a declaration
    · obtain ⟨k, ρ, rfl⟩ := List.exists_cons_of_ne_nil hne
      rw [Node.at?_inside, show (Node.declare v).body = [] from rfl, Node.at?_nil] at hat
      cases hat
  · rintro ⟨j, ρ, first, node, rfl, hj, hkeep, hat, hwritten⟩
    refine ⟨j + 1, ρ, first, node, ?_, hj, hkeep, Node.at?_later.trans hat, hwritten,
      Site.follows_singleton.mpr (.inl (Nat.succ_pos j))⟩
    rw [Nat.add_right_comm]
    rfl

/-- What follows a node of a body is in that body. The sites of the body go on
from the site of the node, so the question is the same one about a shorter
list. -/
theorem inside_iff (hkeep : keep node = true) :
    Later keep (node :: rest) π i (0 :: k :: τ) σ ↔
      Later (fun _ => true) node.body (π ++ [i]) 0 (k :: τ) σ := by
  constructor
  · rintro ⟨j, ρ, first, inner, rfl, hj, -, hat, hwritten, hfollows⟩
    obtain ⟨rfl, hinside⟩ := Site.follows_cons_cons.mp hfollows
    cases ρ with
    | nil => exact absurd hinside.1 (List.not_lt_nil _)
    | cons j ρ =>
      rw [Node.at?_inside] at hat
      obtain ⟨first, hfirst⟩ := Node.exists_first_of_at? hat
      exact ⟨j, ρ, first, inner, by simp, hfirst, rfl, hat, hwritten, hinside⟩
  · rintro ⟨j, ρ, first, inner, rfl, -, -, hat, hwritten, hfollows⟩
    exact ⟨0, j :: ρ, node, inner, by simp, rfl, hkeep, hat, hwritten,
      Site.follows_cons_cons.mpr ⟨rfl, hfollows⟩⟩

/-- What follows a node of the rest of a list is in that rest, with places
that are counted on. -/
theorem rest_iff :
    Later keep (node :: rest) π i ((j + 1) :: τ) σ ↔ Later keep rest π (i + 1) (j :: τ) σ := by
  constructor
  · rintro ⟨j', ρ, first, inner, rfl, hj, hkeep, hat, hwritten, hfollows⟩
    cases j' with
    | zero => exact absurd hfollows Site.not_follows_zero
    | succ j' =>
      rw [Node.at?_later] at hat
      refine ⟨j', ρ, first, inner, ?_, hj, hkeep, hat, hwritten, Site.follows_succ.mp hfollows⟩
      rw [Nat.add_right_comm]
      rfl
  · rintro ⟨j', ρ, first, inner, rfl, hj, hkeep, hat, hwritten, hfollows⟩
    refine ⟨j' + 1, ρ, first, inner, ?_, hj, hkeep, Node.at?_later.trans hat, hwritten,
      Site.follows_succ.mpr hfollows⟩
    rw [Nat.add_right_comm]
    rfl

end Later

/-! ## Blocks of acceptable nodes -/

/-- A selection of nodes that has all statements in it. -/
def KeepsStatements (keep : Node → Bool) : Prop :=
  ∀ node, isStatement node = true → keep node = true

namespace Accepts

variable {d : Dialect} {ctx : Context} {part part' : Part} {F F' : Facts} {nodes : List Node}
  {names : Names} {keep : Node → Bool}

/-- The body of a node is acceptable where it stands. What is known there does
not matter to the blocks of the code. -/
theorem body_at {V : Vocabulary} (h : Accepts V ctx part F nodes part' F') {i : Nat} {node : Node}
    (hi : nodes[i]? = some node) :
    ∃ ctx₁ F₁ inside F₂, inside.isFinal = true ∧
      Accepts V ctx₁ .list F₁ node.body inside F₂ := by
  induction h generalizing i with
  | nil => cases hi
  | cons _ _ hbody hinside _ _ ih =>
    cases i with
    | zero =>
      obtain rfl := Option.some.inj hi
      exact ⟨_, _, _, _, hinside, hbody⟩
    | succ i => exact ih hi

/-- **The rest of a block reaches past a list of nodes**, and no further
blocks are open after it than the list leaves to be closed. By induction on
the judgement, with one node and its body at a time. -/
theorem restOfBlock_traceList (hspace : names.Wordy)
    (h : Accepts d.vocabulary ctx part F nodes part' F')
    (hkeep : KeepsStatements keep) (depth : Nat) (π : Site)
    (i n : Nat) (t : Trace) :
    restOfBlock (n + part.unclosed) (traceList keep names depth π i nodes ++ t) =
      traceList keep names depth π i nodes ++ restOfBlock (n + part'.unclosed) t := by
  induction h generalizing keep depth π i n t with
  | nil => rfl
  | @cons ctx part next inside part' F G F' node rest hpart hnode _ hinside _ ihbody ihrest =>
    rw [traceList, List.append_assoc, List.append_assoc]
    cases hk : keep node with
    | false =>
      have hhead : isStatement node = false := by
        cases hs : isStatement node with
        | false => rfl
        | true => cases (hkeep node hs).symm.trans hk
      obtain ⟨hpart₀, hnext₀⟩ := Part.unclosed_of_not_isStatement hpart hhead
      rw [if_neg Bool.false_ne_true, List.nil_append, List.nil_append, hpart₀, ← hnext₀]
      exact ihrest hkeep depth π (i + 1) n t
    | true =>
      have hbody (n : Nat) (t : Trace) :
          restOfBlock n (traceList (fun _ => true) names (depth + 1) (π ++ [i]) 0 node.body ++ t) =
            traceList (fun _ => true) names (depth + 1) (π ++ [i]) 0 node.body ++
              restOfBlock n t := by
        have hin : inside.unclosed = 0 := if_pos hinside
        have := ihbody (fun _ _ => rfl) (depth + 1) (π ++ [i]) 0 n t
        rwa [hin] at this
      rw [if_pos rfl, Part.restOfBlock_traceNode hspace hpart hnode depth (π ++ [i]) hbody,
        ihrest hkeep depth π (i + 1) n t]

/-- A block ends before nodes that are to close it: the first of them is a
further branch, or the end of a condition or loop. -/
theorem restOfBlock_eq_nil (hspace : names.Wordy)
    (h : Accepts d.vocabulary ctx part F nodes part' F') (hpart : part.isFinal = false)
    (hfinal : part'.isFinal = true)
    (hkeep : KeepsStatements keep) (depth : Nat) (π : Site) (i : Nat)
    (t : Trace) : restOfBlock 0 (traceList keep names depth π i nodes ++ t) = [] := by
  cases h with
  | nil =>
    rw [hpart] at hfinal
    cases hfinal
  | @cons _ _ _ _ _ _ _ _ node rest hafter hnode _ _ _ =>
    have hcloses := Part.closesBlock_of_after? hafter
    rw [hpart] at hcloses
    have hkinds : isStatement node = true ∧ isWritten node = true := by
      cases node <;> first | exact ⟨rfl, rfl⟩ | cases hcloses
    have hline := closes_line hspace hnode hkinds.2 depth
    rw [hcloses] at hline
    rw [traceList, if_pos (hkeep node hkinds.1), traceNode_eq, opening, if_pos hkinds.2]
    exact restOfBlock_closes hline _ _

/-- The block of a body ends after the body. Either the node is closed by a
line of its own, or a node that follows does it. -/
theorem restOfBlock_after_body (hspace : names.Wordy)
    {next : Part} {node : Node} (h : Accepts d.vocabulary ctx next F nodes part' F')
    (hpart : part.after? node = some next) (hbody : node.body ≠ []) (hfinal : part'.isFinal = true)
    (hkeep : KeepsStatements keep) (depth : Nat) (π : Site) (i : Nat)
    (t : Trace) :
    restOfBlock 0 (closing depth node ++ (traceList keep names depth π i nodes ++ t)) = [] := by
  have hclose : StartsIn '\x7d' "\x7d" := rfl
  by_cases hopen : next.isFinal = true
  · have hnext : next.unclosed = 0 := if_pos hopen
    rw [Part.unclosed_of_after? hpart depth] at hnext
    cases node with
    | run count body => exact restOfBlock_closes (hclose.closes depth) _ _
    | function s body => exact restOfBlock_closes (hclose.closes depth) _ _
    | ifThen c body => cases hnext
    | elseIf c body => cases hnext
    | otherwise body => cases hnext
    | loop counter start stop body => cases hnext
    | _ => exact absurd rfl hbody
  · have hnext : next.unclosed = 1 := if_neg hopen
    rw [Part.unclosed_of_after? hpart depth] at hnext
    have hclosing : closing depth node = [] := by
      cases node <;> first | rfl | cases hnext
    rw [hclosing, List.nil_append]
    exact h.restOfBlock_eq_nil hspace (by simpa using hopen) hfinal hkeep depth π i t

/-- **The block of a declaration** goes on with the nodes that follow it in
its list, and with all that is inside of them. By induction on the site:
inside of a node the list is that of its body. -/
theorem exists_block (hspace : names.Wordy)
    (h : Accepts d.vocabulary ctx part F nodes part' F') (hfinal : part'.isFinal = true)
    (hkeep : KeepsStatements keep) {j : Nat} {τ : Site}
    {first : Node} {v : Declaration} (hfirst : nodes[j]? = some first) (hkept : keep first = true)
    (hat : Node.at? nodes (j :: τ) = some (.declare v)) (depth : Nat) (π : Site) (i : Nat)
    {t : Trace} (ht : (restOfBlock 0 t).sites = []) :
    ∃ before line after,
      traceList keep names depth π i nodes ++ t =
        before ++ (some (π ++ (i + j) :: τ), line) :: after ∧
      ∀ σ, σ ∈ (restOfBlock 0 after).sites ↔ Later keep nodes π i (j :: τ) σ := by
  induction h generalizing keep j τ first depth π i t with
  | nil => cases hfirst
  | @cons ctx part next inside part' F G F' node rest hpart _ _ hinside hrest ihbody ihrest =>
    match j, τ with
    | 0, [] =>
      obtain rfl := Option.some.inj hat
      have hnext : next.unclosed = 0 := Part.unclosed_of_after? hpart 0
      have hlast : part'.unclosed = 0 := if_pos hfinal
      have hblock := hrest.restOfBlock_traceList hspace hkeep depth π (i + 1) 0 t
      rw [hnext, hlast] at hblock
      refine ⟨[], ⟨depth, lineText names (.declare v)⟩,
        traceList keep names depth π (i + 1) rest ++ t, ?_, fun σ => ?_⟩
      · rw [traceList, if_pos (hkeep (.declare v) rfl)]
        rfl
      · rw [hblock, Trace.sites_append, ht, List.append_nil, Later.first_iff names depth]
    | 0, k :: τ =>
      obtain rfl := Option.some.inj hfirst
      rw [Node.at?_inside] at hat
      have hempty : node.body ≠ [] := by
        intro hnil
        rw [hnil, Node.at?_nil] at hat
        cases hat
      have hafter := congrArg Trace.sites
        (hrest.restOfBlock_after_body hspace hpart hempty hfinal hkeep depth π (i + 1) t)
      obtain ⟨inner, hinner⟩ := Node.exists_first_of_at? hat
      obtain ⟨before, line, after, htrace, hsites⟩ := ihbody hinside (fun _ _ => rfl) hinner rfl
        hat (depth + 1) (π ++ [i]) 0 hafter
      refine ⟨opening names depth (π ++ [i]) node ++ before, line, after, ?_, fun σ => ?_⟩
      · rw [traceList, if_pos hkept, traceNode_eq]
        simp only [List.append_assoc, List.cons_append, List.nil_append, Nat.zero_add] at htrace ⊢
        rw [htrace]
        rfl
      · rw [hsites, Later.inside_iff hkept]
    | j + 1, τ =>
      rw [Node.at?_later] at hat
      obtain ⟨before, line, after, htrace, hsites⟩ := ihrest hfinal hkeep hfirst hkept hat depth π
        (i + 1) ht
      refine ⟨(if keep node then traceNode names depth (π ++ [i]) node else []) ++ before, line,
        after, ?_, fun σ => ?_⟩
      · rw [traceList, List.append_assoc, htrace, List.append_assoc, Nat.add_right_comm]
        rfl
      · rw [hsites, Later.rest_iff]

end Accepts

/-! ## Programs -/

namespace Cpp

/-- A site that marks one line only parts a trace in one way. -/
theorem Trace.after_unique {δ : Site} {line line' : Line} {before before' after after' : Trace}
    (hnodup : (before ++ (some δ, line) :: after).sites.Nodup)
    (h : before ++ (some δ, line) :: after = before' ++ (some δ, line') :: after') :
    after = after' := by
  induction before generalizing before' with
  | nil =>
    cases before' with
    | nil => exact (List.cons.inj h).2
    | cons e before' =>
      rw [(List.cons.inj h).2] at hnodup
      simp at hnodup
  | cons e before ih =>
    cases before' with
    | nil =>
      obtain ⟨rfl, -⟩ := List.cons.inj h
      simp at hnodup
    | cons e' before' =>
      refine ih ?_ (List.cons.inj h).2
      exact hnodup.sublist (List.Sublist.filterMap _ (List.sublist_cons_self e _))

theorem sees_iff_of_eq {t before after : Trace} {δ σ : Site} {line : Line} (hnodup : t.sites.Nodup)
    (h : t = before ++ (some δ, line) :: after) : Sees t δ σ ↔ σ ∈ (restOfBlock 0 after).sites := by
  constructor
  · rintro ⟨before', line', after', h', hσ⟩
    rw [h] at hnodup
    rwa [Trace.after_unique hnodup (h.symm.trans h')]
  · intro hσ
    exact ⟨before, line, after, h, hσ⟩

/-- The trace of a function is a part of the trace of the functions, with
other functions before and after it. -/
theorem exists_traceFunctions (names : Names) {nodes : List Node} {j : Nat} {first : Node}
    (hfirst : nodes[j]? = some first) (hfunction : Node.isFunction first = true) (i : Nat) :
    ∃ before after, traceFunctions names i nodes =
      before ++ (traceNode names 0 [i + j] first ++ after) := by
  induction nodes generalizing i j with
  | nil => cases hfirst
  | cons node rest ih =>
    cases j with
    | zero =>
      obtain rfl := Option.some.inj hfirst
      refine ⟨[], [(none, .blank)] ++ traceFunctions names (i + 1) rest, ?_⟩
      rw [traceFunctions, if_pos hfunction, List.append_assoc]
      rfl
    | succ j =>
      obtain ⟨before, after, h⟩ := ih hfirst (i + 1)
      refine ⟨(if Node.isFunction node then traceNode names 0 [i] node ++ [(none, .blank)]
        else []) ++ before, after, ?_⟩
      rw [traceFunctions, h, Nat.add_right_comm, List.append_assoc]
      rfl

end Cpp

namespace Program

variable {d : Dialect} {library : Bool} {p : Program} {warnings : List (String × String)}

/-- The namespace of an acceptable program is named like a library. It opens
with a word, and so do the calls that name it. -/
theorem Accepted.library_of_namespace? (h : p.Accepted d.vocabulary d library warnings)
    {space : String} (hspace : p.namespace? = some space) : d.vocabulary.Library space := by
  obtain ⟨-, part, F, -, -, haccepts⟩ := h
  unfold namespace? at hspace
  split at hspace
  · next name rest hnodes =>
    obtain rfl := Option.some.inj hspace
    rw [hnodes] at haccepts
    cases haccepts with
    | cons _ hnode => exact hnode.2
  · cases hspace

theorem Accepted.wordy (h : p.Accepted d.vocabulary d library warnings) :
    (Names.ofProgram p).Wordy :=
  fun _ hspace => beginsWord_library (h.library_of_namespace? hspace)

/-- In the block of the unit, functions are left out. They are written outside
of `main`, so what `main` declares is not seen there. -/
theorem later_main_iff {j : Nat} {τ σ : Site} {first node : Node}
    (hfirst : p.nodes[j]? = some first) (hstatement : isStatement first = true)
    (hσ : p.at? σ = some node) (hnode : isWritten node = true) :
    Later isStatement p.nodes [] 0 (j :: τ) σ ↔ j :: τ < σ ∧ p.Encloses (j :: τ) σ := by
  constructor
  · rintro ⟨i, ρ, first', node', hsite, hi, hstatement', -, -, hlt, hpre⟩
    obtain rfl : σ = i :: ρ := by simpa using hsite
    refine ⟨hlt, hpre, fun _ => ?_⟩
    rw [inFunction, hi, Option.any_some]
    cases first' <;> first | rfl | cases hstatement'
  · rintro ⟨hlt, hpre, hmain⟩
    cases σ with
    | nil => cases hσ
    | cons i ρ =>
      obtain ⟨first', hfirst'⟩ := Node.exists_first_of_at? hσ
      refine ⟨i, ρ, first', node, by simp, hfirst', ?_, hσ, hnode, hlt, hpre⟩
      cases τ with
      | nil =>
        obtain hfunction | hstatement' := p.isFunction_or_isStatement hσ hnode hfirst'
        · have hmain := hmain rfl
          rw [inFunction, hfirst', Option.any_some, hfunction] at hmain
          cases hmain
        · exact hstatement'
      | cons k τ =>
        obtain ⟨rfl, -⟩ := Site.follows_cons_cons.mp ⟨hlt, hpre⟩
        obtain rfl := Option.some.inj (hfirst.symm.trans hfirst')
        exact hstatement

/-- A declaration in a function is followed by nodes of the same function.
Other functions and the statements of `main` are outside of its braces. -/
theorem later_function_iff {j k : Nat} {τ σ : Site} {first node : Node}
    (hfirst : p.nodes[j]? = some first) (hσ : p.at? σ = some node)
    (hnode : isWritten node = true) :
    Later (fun _ => true) first.body [j] 0 (k :: τ) σ ↔
      j :: k :: τ < σ ∧ p.Encloses (j :: k :: τ) σ := by
  constructor
  · rintro ⟨i, ρ, -, -, hsite, -, -, -, -, hfollows⟩
    obtain rfl : σ = j :: i :: ρ := by simpa using hsite
    obtain ⟨hlt, hpre⟩ := Site.follows_cons_cons.mpr ⟨rfl, hfollows⟩
    exact ⟨hlt, hpre, nofun⟩
  · rintro ⟨hlt, hpre, -⟩
    match σ, hσ with
    | [i], _ =>
      obtain ⟨-, hnil, -⟩ := Site.follows_cons_cons.mp ⟨hlt, hpre⟩
      exact absurd hnil (List.not_lt_nil _)
    | i :: i' :: ρ, hσ =>
      obtain ⟨rfl, hfollows⟩ := Site.follows_cons_cons.mp ⟨hlt, hpre⟩
      have hat : Node.at? first.body (i' :: ρ) = some node := by
        rw [at?, Node.at?_cons_cons, hfirst] at hσ
        exact hσ
      obtain ⟨inner, hinner⟩ := Node.exists_first_of_at? hat
      exact ⟨i', ρ, inner, node, by simp, hinner, rfl, hat, hnode, hfollows⟩

/-- The block of a declaration among the statements of a program: it goes to
the end of `main`, or to the end of the body that it stands in. -/
theorem Accepted.sees_iff_later_main (h : p.Accepted d.vocabulary d library warnings) {j : Nat}
    {τ σ : Site} {first : Node} {v : Declaration} (hfirst : p.nodes[j]? = some first)
    (hstatement : isStatement first = true) (hδ : p.at? (j :: τ) = some (.declare v)) :
    Sees p.trace (j :: τ) σ ↔ Later isStatement p.nodes [] 0 (j :: τ) σ := by
  have hspace := h.wordy
  obtain ⟨-, part, F, hfinal, -, haccepts⟩ := h
  have hend : (restOfBlock 0 [(none, ⟨1, "return 0;"⟩), (none, .flush "\x7d")]).sites = [] := by
    decide
  obtain ⟨before, line, after, htrace, hsites⟩ := haccepts.exists_block hspace hfinal
    (fun _ => id) hfirst hstatement hδ 1 [] 0 hend
  have hsplit : p.trace = (headTrace p ++ traceFunctions (Names.ofProgram p) 0 p.nodes ++
      .plain ((inNamespace (Names.ofProgram p).space? []).drop 2) ++
      [(none, .flush "int main() \x7b")] ++ before) ++ (some (j :: τ), line) :: after := by
    simp only [Nat.zero_add, List.nil_append] at htrace
    rw [List.append_assoc, ← htrace]
    simp [trace, mainTrace]
  rw [sees_iff_of_eq p.nodup_sites_trace hsplit, hsites]

/-- The block of a declaration in a function goes to the end of the function,
or of the body inside of it that it stands in. -/
theorem Accepted.sees_iff_later_function (h : p.Accepted d.vocabulary d library warnings)
    {j k : Nat} {τ σ : Site} {first : Node} {v : Declaration} (hfirst : p.nodes[j]? = some first)
    (hfunction : Node.isFunction first = true) (hδ : p.at? (j :: k :: τ) = some (.declare v)) :
    Sees p.trace (j :: k :: τ) σ ↔ Later (fun _ => true) first.body [j] 0 (k :: τ) σ := by
  have hspace := h.wordy
  obtain ⟨-, _, _, -, -, haccepts⟩ := h
  obtain ⟨ctx, F, inside, F', hinside, hbody⟩ := haccepts.body_at hfirst
  rw [at?, Node.at?_cons_cons, hfirst, Option.bind_some] at hδ
  obtain ⟨inner, hinner⟩ := Node.exists_first_of_at? hδ
  obtain ⟨before, after, hfunctions⟩ := exists_traceFunctions (Names.ofProgram p) hfirst hfunction 0
  have hend (t : Trace) : (restOfBlock 0 (closing 0 first ++ t)).sites = [] := by
    have hclose : StartsIn '\x7d' "\x7d" := rfl
    cases first with
    | function s body => exact congrArg Trace.sites (restOfBlock_closes (hclose.closes 0) none t)
    | _ => cases hfunction
  obtain ⟨before', line, after', htrace, hsites⟩ := hbody.exists_block hspace hinside
    (fun _ _ => rfl) hinner rfl hδ 1 [j] 0
    (hend (after ++ (.plain ((inNamespace (Names.ofProgram p).space? []).drop 2) ++
      mainTrace (Names.ofProgram p) p.nodes)))
  have hsplit : p.trace = (headTrace p ++ before ++ opening (Names.ofProgram p) 0 [j] first ++
      before') ++ (some (j :: k :: τ), line) :: after' := by
    simp only [Nat.zero_add, List.cons_append, List.nil_append] at htrace
    rw [List.append_assoc, ← htrace, trace, hfunctions, Nat.zero_add, traceNode_eq]
    simp
  rw [sees_iff_of_eq p.nodup_sites_trace hsplit, hsites]

/-- **A line sees a declaration** exactly if its node comes later and the
block of the declaration encloses it. The left side is about the braces of the
code, and the right side about the program alone. -/
theorem Accepted.sees_iff (h : p.Accepted d.vocabulary d library warnings) {δ σ : Site}
    {v : Declaration} {node : Node} (hδ : p.at? δ = some (.declare v)) (hσ : p.at? σ = some node)
    (hnode : isWritten node = true) : Sees p.trace δ σ ↔ δ < σ ∧ p.Encloses δ σ := by
  cases δ with
  | nil => cases hδ
  | cons j τ =>
    obtain ⟨first, hfirst⟩ := Node.exists_first_of_at? hδ
    obtain hfunction | hstatement := p.isFunction_or_isStatement hδ rfl hfirst
    · cases τ with
      | nil =>
        obtain rfl := Option.some.inj (hfirst.symm.trans hδ)
        cases hfunction
      | cons k τ =>
        rw [h.sees_iff_later_function hfirst hfunction hδ]
        exact later_function_iff hfirst hσ hnode
    · rw [h.sees_iff_later_main hfirst hstatement hδ]
      exact later_main_iff hfirst hstatement hσ hnode

end Program

end MapleCompiler
