import MapleCompiler.Proofs.Printing.RoundTrip
import MapleCompiler.Proofs.Scoping.Known

/-!
# Exchanging a node of a program

What a reader checks about a node can be found out by putting another node in its
place. If the new node leaves the same behind as the old one
(`Node.Interchangeable`), nothing that follows can tell the difference: the
program is acceptable exactly if the new node has what it needs *at this place*
(`Program.Accepted.exchange`). So a statement on which programs are read says
both what is checked there and that nothing else is.

A program is *readable* if it can be read from some text, up to the places of its
imports (`Program.IsRead`). By the round trip through the source text these are
the acceptable programs (`Program.isRead_iff`).
-/

namespace MapleCompiler

/-! ## Nodes with another body -/

namespace Node

/-- The node with another body, if it has one. -/
def withBody (body : List Node) : Node → Node
  | .run count _ => .run count body
  | .ifThen c _ => .ifThen c body
  | .elseIf c _ => .elseIf c body
  | .otherwise _ => .otherwise body
  | .loop counter start stop _ => .loop counter start stop body
  | .function s _ => .function s body
  | node => node

variable {node : Node} (inner : List Node)

theorem body_withBody (h : node.body ≠ []) : (node.withBody inner).body = inner := by
  cases node <;> first | rfl | exact absurd rfl h

@[simp] theorem isLibraryPart_withBody :
    (node.withBody inner).isLibraryPart = node.isLibraryPart := by
  cases node <;> rfl

@[simp] theorem after?_withBody (part : Part) :
    part.after? (node.withBody inner) = part.after? node := by
  cases part <;> cases node <;> rfl

@[simp] theorem checked_withBody {V : Vocabulary} {ctx : Context} {F : Facts} :
    (node.withBody inner).Checked V ctx F ↔ node.Checked V ctx F := by
  cases node <;> rfl

@[simp] theorem enter_withBody (F : Facts) : F.enter (node.withBody inner) = F.enter node := by
  cases node <;> rfl

@[simp] theorem leave_withBody (F : Facts) : F.leave (node.withBody inner) = F.leave node := by
  cases node <;> rfl

@[simp] theorem context_enter_withBody (ctx : Context) :
    ctx.enter (node.withBody inner) = ctx.enter node := by
  cases node <;> rfl

/-! ## Changing the node at a site -/

/-- **The nodes with the one at a site changed.** -/
def modifyAt (f : Node → Node) : Site → List Node → List Node
  | [], nodes => nodes
  | [i], nodes => nodes.modify i f
  | i :: j :: σ, nodes =>
    nodes.modify i fun node => node.withBody (modifyAt f (j :: σ) node.body)

variable {f : Node → Node} {rest : List Node} {i j : Nat} {σ : Site}

@[simp] theorem modifyAt_first : modifyAt f [0] (node :: rest) = f node :: rest := rfl

@[simp] theorem modifyAt_inside :
    modifyAt f (0 :: j :: σ) (node :: rest) =
      node.withBody (modifyAt f (j :: σ) node.body) :: rest := rfl

@[simp] theorem modifyAt_later :
    modifyAt f ((i + 1) :: σ) (node :: rest) = node :: modifyAt f (i :: σ) rest := by
  cases σ <;> rfl

theorem ne_nil_of_at? {nodes : List Node} (h : at? nodes σ = some node) : nodes ≠ [] := by
  rintro rfl
  rw [at?_nil] at h
  cases h

/-- **Two nodes that leave the same behind.** Neither has a body, the same may
follow them, and the same is known after them. -/
structure Interchangeable (node node' : Node) : Prop where
  body : node.body = []
  body' : node'.body = []
  after? : ∀ part : Part, part.after? node' = part.after? node
  enter : ∀ F : Facts, F.enter node' = F.enter node
  leave : ∀ F : Facts, F.leave node' = F.leave node
  isLibraryPart : node'.isLibraryPart = node.isLibraryPart

theorem map_isLibraryPart_modifyAt {nodes : List Node} (hσ : at? nodes σ = some node)
    (hf : (f node).isLibraryPart = node.isLibraryPart) :
    (modifyAt f σ nodes).map isLibraryPart = nodes.map isLibraryPart := by
  induction nodes generalizing σ with
  | nil => exact absurd rfl (ne_nil_of_at? hσ)
  | cons first rest ih =>
    match σ, hσ with
    | [0], hσ =>
      obtain rfl := Option.some.inj hσ
      simp [hf]
    | 0 :: j :: σ, _ => simp
    | (i + 1) :: σ, hσ =>
      rw [at?_later] at hσ
      simp [ih hσ]

end Node

/-! ## The judgement -/

open Node

variable {V : Vocabulary} {ctx ctx₁ : Context} {part part' : Part} {F F' F₁ : Facts}
  {nodes rest : List Node} {node : Node} {σ : Site} {f : Node → Node}

namespace Accepts

theorem cons_iff :
    Accepts V ctx part F (node :: rest) part' F' ↔
      ∃ next inside G, part.after? node = some next ∧ node.Checked V ctx F ∧
        Accepts V (ctx.enter node) .list (F.enter node) node.body inside G ∧
        inside.isFinal = true ∧ Accepts V ctx next (G.leave node) rest part' F' := by
  constructor
  · intro h
    cases h with
    | cons hpart hnode hbody hinside hrest =>
      exact ⟨_, _, _, hpart, hnode, hbody, hinside, hrest⟩
  · rintro ⟨next, inside, G, hpart, hnode, hbody, hinside, hrest⟩
    exact .cons hpart hnode hbody hinside hrest

/-- **What is known after a list is determined** by the list and what is known
before it. -/
theorem unique {part'' : Part} {F'' : Facts} (h : Accepts V ctx part F nodes part' F')
    (h' : Accepts V ctx part F nodes part'' F'') : part' = part'' ∧ F' = F'' := by
  induction h generalizing part'' F'' with
  | nil =>
    cases h'
    exact ⟨rfl, rfl⟩
  | cons hpart _ _ _ _ ihbody ihrest =>
    obtain ⟨next', inside', G', hpart', -, hbody', -, hrest'⟩ := cons_iff.mp h'
    obtain rfl := Option.some.inj (hpart.symm.trans hpart')
    obtain ⟨-, rfl⟩ := ihbody hbody'
    exact ihrest hrest'

/-- The judgement does not look at the places of imports. They matter to
messages only. -/
theorem bodyUnplaced_iff :
    Accepts V ctx part F (bodyUnplaced nodes) part' F' ↔ Accepts V ctx part F nodes part' F' := by
  induction nodes using bodyInduction generalizing ctx part F part' F' with
  | nil => exact Iff.rfl
  | cons node rest ihbody ihrest =>
    have hafter : part.after? node.unplaced = part.after? node := by
      cases part <;> cases node <;> rfl
    have hchecked : node.unplaced.Checked V ctx F ↔ node.Checked V ctx F := by
      cases node <;> rfl
    have hcontext : ctx.enter node.unplaced = ctx.enter node := by cases node <;> rfl
    have henter : F.enter node.unplaced = F.enter node := by cases node <;> rfl
    have hbody : node.unplaced.body = bodyUnplaced node.body := by cases node <;> rfl
    have hleave (G : Facts) : G.leave node.unplaced = G.leave node := by cases node <;> rfl
    simp only [bodyUnplaced, cons_iff, hafter, hchecked, hcontext, henter, hbody, hleave, ihbody,
      ihrest]

/-- **The new node has what it needs, so the list is acceptable** as before.
By induction on the way to the node; what comes after it finds the same facts,
since the two nodes leave the same behind. -/
theorem modifyAt (h : Accepts V ctx part F nodes part' F')
    (harrives : Arrives V ctx F nodes σ ctx₁ F₁) (hσ : at? nodes σ = some node)
    (hf : node.Interchangeable (f node)) (hchecked : (f node).Checked V ctx₁ F₁) :
    Accepts V ctx part F (Node.modifyAt f σ nodes) part' F' := by
  induction harrives generalizing part part' F' with
  | here =>
    obtain rfl := Option.some.inj hσ
    obtain ⟨next, inside, G, hpart, -, hbody, -, hrest⟩ := cons_iff.mp h
    rw [hf.body] at hbody
    cases hbody
    rw [modifyAt_first, cons_iff, hf.after?, hf.body', hf.enter]
    refine ⟨next, _, _, hpart, hchecked, .nil, rfl, ?_⟩
    rw [hf.leave]
    exact hrest
  | inside _ _ ih =>
    rw [at?_inside] at hσ
    obtain ⟨next, inside, G, hpart, hnode, hbody, hinside, hrest⟩ := cons_iff.mp h
    rw [modifyAt_inside, cons_iff, body_withBody _ (ne_nil_of_at? hσ)]
    simp only [after?_withBody, checked_withBody, context_enter_withBody, enter_withBody,
      leave_withBody]
    exact ⟨next, inside, G, hpart, hnode, ih hbody hσ hchecked, hinside, hrest⟩
  | later _ hfirst _ ih =>
    rw [at?_later] at hσ
    obtain ⟨next, inside, G, hpart, hnode, hbody, hinside, hrest⟩ := cons_iff.mp h
    obtain ⟨-, rfl⟩ := hfirst.unique hbody
    rw [modifyAt_later]
    exact .cons hpart hnode hbody hinside (ih hrest hσ hchecked)

end Accepts

/-- **The changed list is acceptable, so the new node has what it needs**: the
way to it is that of the old node, as it goes through nodes that were not
changed. -/
theorem Arrives.checked_of_modifyAt (harrives : Arrives V ctx F nodes σ ctx₁ F₁)
    (hσ : at? nodes σ = some node)
    (h : Accepts V ctx part F (Node.modifyAt f σ nodes) part' F') :
    (f node).Checked V ctx₁ F₁ := by
  induction harrives generalizing part part' F' with
  | here =>
    obtain rfl := Option.some.inj hσ
    obtain ⟨-, -, -, -, hchecked, -⟩ := Accepts.cons_iff.mp h
    exact hchecked
  | inside _ _ ih =>
    rw [at?_inside] at hσ
    obtain ⟨next, inside, G, -, -, hbody, -⟩ := Accepts.cons_iff.mp h
    rw [body_withBody _ (ne_nil_of_at? hσ)] at hbody
    simp only [context_enter_withBody, enter_withBody] at hbody
    exact ih hσ hbody
  | later _ hfirst _ ih =>
    rw [at?_later] at hσ
    rw [modifyAt_later] at h
    obtain ⟨next, inside, G, -, -, hbody, -, hrest⟩ := Accepts.cons_iff.mp h
    obtain ⟨-, rfl⟩ := hfirst.unique hbody
    exact ih hσ hrest

/-! ## Programs -/

namespace Program

/-- **The program with the node at a site changed.** -/
def modifyAt (p : Program) (σ : Site) (f : Node → Node) : Program := ⟨Node.modifyAt f σ p.nodes⟩

/-- **A program that can be read** from some text, up to the places of its
imports. -/
def IsRead (d : Dialect) (library : Bool) (p : Program) : Prop :=
  ∃ source p' warnings, ofText d library source = .ok (p', warnings) ∧ p'.unplaced = p.unplaced

/-- **What can be written as an operand at a site**: a literal, or a name that
means something there. -/
def Offers (p : Program) (d : Dialect) (σ : Site) (x : String) : Prop :=
  ∃ kind, kind.isOperand = true ∧ Lexeme d kind x ∧ (kind = .identifier → ∃ m, p.Means σ x m)

variable {p : Program} {d : Dialect} {library : Bool} {warnings : List (String × String)}

/-- The operands that are known at a site are those that it offers: the
literals, and the names that the program gives a meaning there. -/
theorem Situation.known_iff (h : p.Situation σ ctx F) {x : String} :
    d.vocabulary.Known F.scope x ↔ p.Offers d σ x := by
  unfold Vocabulary.Known Offers
  simp only [h.isDefined_iff]
  exact Iff.rfl

theorem accepted_unplaced :
    p.unplaced.Accepted V d library warnings ↔ p.Accepted V d library warnings := by
  have hparts (nodes : List Node) :
      (∀ node ∈ bodyUnplaced nodes, node.isLibraryPart = true) ↔
        ∀ node ∈ nodes, node.isLibraryPart = true := by
    induction nodes with
    | nil => exact Iff.rfl
    | cons node rest ih =>
      have hnode : node.unplaced.isLibraryPart = node.isLibraryPart := by cases node <;> rfl
      rw [bodyUnplaced, List.forall_mem_cons, List.forall_mem_cons, hnode, ih]
  unfold Accepted Program.unplaced
  rw [hparts]
  simp only [Accepts.bodyUnplaced_iff]

/-- **The programs that can be read are the acceptable ones.** A program that
is read from some text is acceptable; and the text of an acceptable program is
read back. -/
theorem isRead_iff :
    p.IsRead d library ↔ ∃ warnings, p.Accepted d.vocabulary d library warnings := by
  constructor
  · rintro ⟨source, p', warnings, hread, hsame⟩
    have haccepted := accepted_unplaced.mpr (accepted_of_ofText hread)
    rw [hsame] at haccepted
    exact ⟨_, accepted_unplaced.mp haccepted⟩
  · rintro ⟨warnings, haccepted⟩
    obtain ⟨p', warnings', hread, hsame, -⟩ := ofText_source_of_accepted haccepted
    exact ⟨_, p', warnings', hread, hsame⟩

/-- **A node can be exchanged exactly for those that have what they need**
where it stands, as long as they leave the same behind. What is asked of the
new node can be read off the program, since names mean there what the program
says. -/
theorem Accepted.exchange (h : p.Accepted d.vocabulary d library warnings)
    (hσ : p.at? σ = some node) :
    ∃ ctx F, node.Checked d.vocabulary ctx F ∧ F.scope.Unambiguous ∧ p.Situation σ ctx F ∧
      ∀ f : Node → Node, node.Interchangeable (f node) →
        ((p.modifyAt σ f).IsRead d library ↔ (f node).Checked d.vocabulary ctx F) := by
  obtain ⟨hlibrary, part, F', hfinal, rfl, haccepts⟩ := h
  obtain ⟨ctx, F, harrives, hchecked⟩ := haccepts.arrives hσ
  refine ⟨ctx, F, hchecked, harrives.invariant (Facts.invariant_unambiguous _) unambiguous_initial,
    situation_of_arrives harrives, fun f hf => ?_⟩
  rw [isRead_iff]
  constructor
  · rintro ⟨_, -, _, _, -, -, hmodified⟩
    exact harrives.checked_of_modifyAt hσ hmodified
  · intro hnew
    refine ⟨_, fun hl => ?_, part, F', hfinal, rfl, haccepts.modifyAt harrives hσ hf hnew⟩
    -- the new node is a part of a library if the old one was
    have hparts := map_isLibraryPart_modifyAt hσ hf.isLibraryPart
    have hall : ∀ b ∈ p.nodes.map isLibraryPart, b = true := by simpa using hlibrary hl
    rw [← hparts] at hall
    exact fun node hmem => hall _ (List.mem_map_of_mem hmem)

end Program

end MapleCompiler
