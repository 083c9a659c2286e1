import MapleCompiler.Program.Equality
import MapleCompiler.Proofs.Scoping.Known

/-!
# The shape of programs that are read

A list of nodes is flat where the text is nested: the words that close a
conditional or a loop are nodes of the *enclosing* list, after the branches they
close. Nothing in the type of nodes keeps them together. `Grouped` is the grammar
that says how they belong together, and `Program.WellShaped` adds where nodes of
the other kinds may stand.

Main statement: every program that is read is well shaped, whatever the tokens
are (`Program.ofTokens_wellShaped`). The reader has three places that deal with
closing words; the judgement `Accepts` has one, the function `Part.after?`. So
the grammar is proved by going through a list from its end: what is left of the
list completes the part that may come next (`Part.Completes`).
-/

namespace MapleCompiler

namespace Node

/-- Whether a node is a group by itself. -/
def standsAlone : Node → Bool
  | .run _ _ | .ifThen _ _ | .elseIf _ _ | .otherwise _ | .endIf | .loop _ _ _ _ | .endLoop => false
  | _ => true

/-- What follows the first branch of a conditional: branches with a condition,
at most one without, and one closing word. -/
def conditionalRest (branches : List (Condition × List Node)) (other? : Option (List Node)) :
    List Node :=
  branches.map (fun branch => .elseIf branch.1 branch.2) ++ other?.toList.map .otherwise ++ [.endIf]

/-- **Lists of nodes that are made of whole groups.** Branches and closing
words stand in no other place than in the group of their conditional or loop,
and `run` is the last node of its list. -/
inductive Grouped : List Node → Prop
  | nil : Grouped []
  | alone (node : Node) (rest : List Node) (h : node.standsAlone = true) (hrest : Grouped rest) :
      Grouped (node :: rest)
  | run (count : String) (body : List Node) : Grouped [.run count body]
  | conditional (c : Condition) (body : List Node) (branches : List (Condition × List Node))
      (other? : Option (List Node)) (rest : List Node) (hrest : Grouped rest) :
      Grouped (.ifThen c body :: (conditionalRest branches other? ++ rest))
  | loop (counter start stop : String) (body rest : List Node) (hrest : Grouped rest) :
      Grouped (.loop counter start stop body :: .endLoop :: rest)

end Node

open Node

/-- **The shape of a program.** -/
structure Program.WellShaped (p : Program) : Prop where
  /-- Only the first node of the unit opens a namespace. -/
  space_first : ∀ σ name, p.at? σ = some (.openNamespace name) → σ = [0]
  /-- Libraries are imported at the top level. -/
  import_top : ∀ σ name span, p.at? σ = some (.useLibrary name span) → σ.length = 1
  /-- No library is imported twice. -/
  imports_nodup : p.imports.Nodup
  /-- Functions stand at the top level. -/
  function_top : ∀ σ s body, p.at? σ = some (.function s body) → σ.length = 1
  /-- What gives back a value is inside of a function. -/
  return_inside : ∀ σ value?, p.at? σ = some (.giveBack value?) →
    ∃ δ ρ s body, σ = δ ++ ρ ∧ ρ ≠ [] ∧ p.at? δ = some (.function s body)
  /-- The unit is made of whole groups. -/
  grouped : Grouped p.nodes
  /-- So is every body, at whatever depth. -/
  grouped_body : ∀ σ node, p.at? σ = some node → Grouped node.body

/-! ## Lists that complete a part -/

namespace Part

/-- **What a list of nodes has to be** where a part may come: it completes the
group that was begun, and goes on with whole groups. -/
def Completes : Part → List Node → Prop
  | start, nodes => Grouped nodes
  | list, nodes => Grouped nodes
  | branches, nodes =>
    ∃ branches other? rest, nodes = conditionalRest branches other? ++ rest ∧ Grouped rest
  | closing, nodes => ∃ rest, nodes = .endIf :: rest ∧ Grouped rest
  | rolling, nodes => ∃ rest, nodes = .endLoop :: rest ∧ Grouped rest
  | last, nodes => nodes = []

variable {part next : Part} {node : Node} {rest : List Node}

/-- Where a list may stop, nothing has to follow. The parts at which it may
not are those inside of a condition or a loop. -/
theorem completes_nil (h : part.isFinal = true) : part.Completes [] := by
  cases part with
  | start => exact .nil
  | list => exact .nil
  | last => rfl
  | branches => cases h
  | closing => cases h
  | rolling => cases h

/-- A statement begins a group, or is one. What the group needs is what the
rest of the list completes. -/
theorem grouped_of_statement (h : afterStatement? node = some next)
    (hrest : next.Completes rest) : Grouped (node :: rest) := by
  cases node with
  | run count body =>
    obtain rfl := Option.some.inj h
    rw [show rest = [] from hrest]
    exact .run count body
  | ifThen c body =>
    obtain rfl := Option.some.inj h
    obtain ⟨branches, other?, rest, rfl, hgrouped⟩ := hrest
    exact .conditional c body branches other? rest hgrouped
  | loop counter start stop body =>
    obtain rfl := Option.some.inj h
    obtain ⟨rest, rfl, hgrouped⟩ := hrest
    exact .loop counter start stop body rest hgrouped
  | elseIf c body => cases h
  | otherwise body => cases h
  | endIf => cases h
  | endLoop => cases h
  | openNamespace name => cases h
  | _ =>
    obtain rfl := Option.some.inj h
    exact .alone _ rest rfl hrest

/-- **The step lemma**: a node that may come, before a list that completes
what follows it, completes the part. By cases on the part and the node; each
may only be followed by certain others. -/
theorem completes_cons (h : part.after? node = some next) (hrest : next.Completes rest) :
    part.Completes (node :: rest) := by
  cases part with
  | start =>
    cases node with
    | openNamespace name =>
      obtain rfl := Option.some.inj h
      exact .alone _ rest rfl hrest
    | _ => exact grouped_of_statement h hrest
  | list => exact grouped_of_statement h hrest
  | branches =>
    cases node with
    | elseIf c body =>
      obtain rfl := Option.some.inj h
      obtain ⟨branches, other?, rest, rfl, hgrouped⟩ := hrest
      exact ⟨(c, body) :: branches, other?, rest, rfl, hgrouped⟩
    | otherwise body =>
      obtain rfl := Option.some.inj h
      obtain ⟨rest, rfl, hgrouped⟩ := hrest
      exact ⟨[], some body, rest, rfl, hgrouped⟩
    | endIf =>
      obtain rfl := Option.some.inj h
      exact ⟨[], none, rest, rfl, hrest⟩
    | _ => cases h
  | closing =>
    cases node with
    | endIf =>
      obtain rfl := Option.some.inj h
      exact ⟨rest, rfl, hrest⟩
    | _ => cases h
  | rolling =>
    cases node with
    | endLoop =>
      obtain rfl := Option.some.inj h
      exact ⟨rest, rfl, hrest⟩
    | _ => cases h
  | last => cases node <;> cases h

/-- A unit has one beginning: no node leads back to it. -/
theorem ne_start_of_after? (h : part.after? node = some next) : next ≠ start := by
  rintro rfl
  cases part <;> cases node <;> cases h

theorem start_of_openNamespace {name : String}
    (h : part.after? (.openNamespace name) = some next) : part = start := by
  cases part with
  | start => rfl
  | _ => cases h

end Part

/-! ## Acceptable lists -/

namespace Accepts

variable {V : Vocabulary} {ctx : Context} {part part' : Part} {F F' : Facts} {nodes : List Node}

/-- **Acceptable lists complete the part where they stand.** By induction on
the judgement, with the step lemma for each node. -/
theorem completes (h : Accepts V ctx part F nodes part' F') (hfinal : part'.isFinal = true) :
    part.Completes nodes := by
  induction h with
  | nil => exact Part.completes_nil hfinal
  | cons hpart _ _ _ _ _ ihrest => exact Part.completes_cons hpart (ihrest hfinal)

/-- **The node at a site comes where it may**, its body is acceptable, and
only the first node of all stands at the start of a unit. By induction on the
judgement along the site. -/
theorem part_at (h : Accepts V ctx part F nodes part' F') {σ : Site} {node : Node}
    (hσ : at? nodes σ = some node) :
    ∃ (ctx₁ : Context) (part₁ next inside : Part) (F₁ F₂ : Facts),
      part₁.after? node = some next ∧ (part₁ = .start → part = .start ∧ σ = [0]) ∧
      inside.isFinal = true ∧ Accepts V ctx₁ .list F₁ node.body inside F₂ := by
  induction h generalizing σ with
  | nil =>
    rw [at?_nil] at hσ
    cases hσ
  | cons hpart hnode hbody hinside _ ihbody ihrest =>
    match σ, hσ with
    | [0], hσ =>
      obtain rfl := Option.some.inj hσ
      exact ⟨_, _, _, _, _, _, hpart, fun h => ⟨h, rfl⟩, hinside, hbody⟩
    | 0 :: j :: ρ, hσ =>
      obtain ⟨_, _, _, _, _, _, hafter, hstart, hfinal, haccepts⟩ := ihbody hσ
      refine ⟨_, _, _, _, _, _, hafter, fun h => ?_, hfinal, haccepts⟩
      cases (hstart h).1
    | (i + 1) :: ρ, hσ =>
      rw [at?_later] at hσ
      obtain ⟨_, _, _, _, _, _, hafter, hstart, hfinal, haccepts⟩ := ihrest hσ
      refine ⟨_, _, _, _, _, _, hafter, fun h => ?_, hfinal, haccepts⟩
      exact absurd (hstart h).1 (Part.ne_start_of_after? hpart)

/-- **No library is imported twice** by the nodes of a list, and none that was
imported before them. By induction on the judgement: each import is refused if
it is known. -/
theorem nodup_imported (h : Accepts V ctx part F nodes part' F') :
    (nodes.filterMap imported?).Nodup ∧ ∀ name ∈ nodes.filterMap imported?, name ∉ F.imports := by
  induction h with
  | nil => exact ⟨List.nodup_nil, nofun⟩
  | @cons ctx part next inside part' F G F' node rest _ hnode hbody _ _ _ ihrest =>
    -- what is imported before the rest of the list, seen from before the node
    have hknown (name : String) (hname : name ∈ F.imports ∨ node.imported? = some name) :
        name ∈ (G.leave node).imports := by
      rw [Facts.collects_imports.leave, hbody.collected Facts.collects_imports,
        Facts.collects_imports.enter]
      exact .inl hname
    obtain ⟨hnodup, hnew⟩ := ihrest
    have hrest : ∀ name ∈ rest.filterMap imported?, name ∉ F.imports :=
      fun name hmem hold => hnew name hmem (hknown name (.inl hold))
    cases hi : node.imported? with
    | none =>
      rw [List.filterMap_cons_none hi]
      exact ⟨hnodup, hrest⟩
    | some name =>
      have hfresh : name ∉ F.imports := by
        cases node with
        | useLibrary name' span =>
          obtain rfl := Option.some.inj hi
          obtain ⟨-, -, -, hfresh⟩ := hnode
          exact hfresh
        | _ => cases hi
      rw [List.filterMap_cons_some hi]
      refine ⟨List.nodup_cons.mpr ⟨fun hmem => ?_, hnodup⟩,
        List.forall_mem_cons.mpr ⟨hfresh, hrest⟩⟩
      exact hnew name hmem (hknown name (.inr hi))

end Accepts

/-! ## Programs -/

/-- The function around a site is one of the nodes around it. By induction on
the site; the innermost one is found. -/
theorem Node.exists_function {nodes : List Node} {σ : Site} {s : Signature}
    (h : functionAt nodes σ = some s) :
    ∃ δ ρ body, σ = δ ++ ρ ∧ ρ ≠ [] ∧ at? nodes δ = some (.function s body) := by
  match σ with
  | [] => cases h
  | [_] => cases h
  | i :: j :: σ =>
    rw [functionAt] at h
    cases hi : nodes[i]? with
    | none => rw [hi] at h; cases h
    | some node =>
      rw [hi] at h
      obtain hinner | ⟨-, hself⟩ := Option.or_eq_some_iff.mp h
      · obtain ⟨δ, ρ, body, hσ, hne, hδ⟩ := Node.exists_function hinner
        refine ⟨i :: δ, ρ, body, by rw [hσ, List.cons_append], hne, ?_⟩
        cases δ with
        | nil => cases hδ
        | cons k δ => rw [at?_cons_cons, hi, Option.bind_some, hδ]
      · refine ⟨[i], j :: σ, node.body, rfl, List.cons_ne_nil j σ, ?_⟩
        cases node with
        | function s' body =>
          obtain rfl := Option.some.inj hself
          exact hi
        | _ => cases hself

namespace Program

theorem imports_eq (p : Program) : p.imports = p.nodes.filterMap imported? := by
  rw [imports, importSites, List.map_filterMap]
  refine List.filterMap_congr fun node _ => ?_
  cases node <;> rfl

variable {p : Program}

/-- At the top level there is no node around a site, so the site is one place
long. -/
theorem Situation.length_eq {σ : Site} {ctx : Context} {F : Facts} (h : p.Situation σ ctx F)
    (htop : ctx.isTopLevel = true) : σ.length = 1 := by
  have hdepth : ctx.depth = 0 := by
    rw [Context.isTopLevel, Bool.and_eq_true] at htop
    exact beq_iff_eq.mp htop.1
  rw [← h.depth_eq, hdepth]

/-- **Acceptable programs are well shaped.** The groups come from what lists
complete, the other parts from what is known at each site. -/
theorem Accepted.wellShaped {V : Vocabulary} {d : Dialect} {library : Bool}
    {warnings : List (String × String)} (h : p.Accepted V d library warnings) : p.WellShaped := by
  obtain ⟨-, part, F, hfinal, -, haccepts⟩ := id h
  have hat {σ : Site} {node : Node} (hσ : p.at? σ = some node) :
      ∃ ctx F, node.Checked V ctx F ∧ p.Situation σ ctx F := by
    obtain ⟨ctx, F, hchecked, -, hsituation⟩ := h.situation (Facts.invariant_true V) trivial hσ
    exact ⟨ctx, F, hchecked, hsituation⟩
  refine ⟨fun σ name hσ => ?_, fun σ name span hσ => ?_, ?_, fun σ s body hσ => ?_,
    fun σ value? hσ => ?_, haccepts.completes hfinal, fun σ node hσ => ?_⟩
  · obtain ⟨_, _, _, _, _, _, hafter, hstart, -⟩ := haccepts.part_at hσ
    exact (hstart (Part.start_of_openNamespace hafter)).2
  · obtain ⟨ctx, F, ⟨htop, -⟩, hsituation⟩ := hat hσ
    exact hsituation.length_eq htop
  · rw [imports_eq]
    exact haccepts.nodup_imported.1
  · obtain ⟨ctx, F, ⟨htop, -⟩, hsituation⟩ := hat hσ
    exact hsituation.length_eq htop
  · obtain ⟨ctx, F, ⟨-, s, hs, -⟩, hsituation⟩ := hat hσ
    rw [hsituation.function?_eq] at hs
    obtain ⟨δ, ρ, body, hδ, hne, hfunction⟩ := Node.exists_function hs
    exact ⟨δ, ρ, s, body, hδ, hne, hfunction⟩
  · obtain ⟨_, _, _, _, _, _, -, -, hinside, hbody⟩ := haccepts.part_at hσ
    exact hbody.completes hinside

/-- **Programs that are read are well shaped**, from any tokens: they need not
be those of a text. -/
theorem ofTokens_wellShaped {d : Dialect} {library : Bool} {tokens : List Token} {p : Program}
    {warnings : List Warning} (h : ofTokens d library tokens = .ok (p, warnings)) :
    p.WellShaped :=
  (accepted_of_ofTokens (V := .full) (fun _ _ _ => trivial) h).wellShaped

/-- A program with all kinds of groups. -/
def groupedProgram : Program :=
  ⟨[.openNamespace "n", .useLibrary "io" ⟨0, 3, 1, 1⟩,
    .function ⟨.i32, "f", []⟩
      [.loop "i" "0" "3" [.giveBack (some "1")], .endLoop, .giveBack (some "2")],
    .ifThen ⟨"1", .less, "2"⟩ [.run "2" [.output "1" none]],
    .elseIf ⟨"1", .equal, "2"⟩ [], .elseIf ⟨"3", .equal, "2"⟩ [], .otherwise [.output "3" none],
    .endIf, .run "4" [.ifThen ⟨"1", .less, "2"⟩ [], .endIf]]⟩

/-- The tokens of that program. -/
def groupedTokens : List Token :=
  [(.init, "init"), (.libraryName, "@n"), (.lib, "lib"), (.libraryName, "@io"), (.fnc, "fnc"),
    (.type .i32, "i32"), (.identifier, "f"), (.colon, ":"), (.colon, ":"), (.loop, "loop"),
    (.identifier, "i"), (.number, "3"), (.rtn, "rtn"), (.number, "1"), (.roll, "roll"),
    (.rtn, "rtn"), (.number, "2"), (.endWord, "end"), (.ifWord, "if"), (.number, "1"),
    (.comparison .less, "<"), (.number, "2"), (.run, "run"), (.number, "2"), (.out, "out"),
    (.number, "1"), (.elifWord, "elif"), (.number, "1"), (.comparison .equal, "=="),
    (.number, "2"), (.elifWord, "elif"), (.number, "3"), (.comparison .equal, "=="),
    (.number, "2"), (.elseWord, "else"), (.out, "out"), (.number, "3"), (.endWord, "end"),
    (.run, "run"), (.number, "4"), (.ifWord, "if"), (.number, "1"), (.comparison .less, "<"),
    (.number, "2"), (.endWord, "end")].map fun word => ⟨word.1, word.2, .start⟩

theorem ofTokens_wellShaped_groups :
    ofTokens .maple false groupedTokens = .ok (groupedProgram, []) ∧
      groupedProgram.WellShaped := by
  have hread : ofTokens .maple false groupedTokens = .ok (groupedProgram, []) := by decide +kernel
  exact ⟨hread, ofTokens_wellShaped hread⟩

end Program

end MapleCompiler
