import Mathlib.Data.List.Basic
import MapleCompiler.Proofs.Scope.Rules

/-!
# Scopes with other names

A scope only ever compares names. So if all its names are replaced, different ones by
different ones, every question about a name has the answer that it had before about the
old name, with the new names in it. There is one such equation for each operation of a
scope; what the readers ask and change then follows.
-/

namespace MapleCompiler

variable (ρ : String → String)

namespace Symbol

/-- The symbol under another name. -/
def rename (s : Symbol) : Symbol := { s with name := ρ s.name }

@[simp] theorem isConstant_rename (s : Symbol) : (s.rename ρ).isConstant = s.isConstant := rfl

@[simp] theorem shape?_rename (s : Symbol) : (s.rename ρ).shape? = s.shape? := rfl

end Symbol

namespace Meaning

/-- The meaning with other names. -/
def rename : Meaning → Meaning
  | declared symbol => declared (symbol.rename ρ)
  | bound type => bound type

@[simp] theorem type_rename (m : Meaning) : (m.rename ρ).type = m.type := by
  cases m <;> rfl

end Meaning

namespace Scope

/-- **The scope with other names.** -/
def rename (s : Scope) : Scope :=
  ⟨s.symbols.map (Symbol.rename ρ), s.blocks.map (List.map fun b => (ρ b.1, b.2)),
    s.backups.map ρ⟩

@[simp] theorem rename_empty : empty.rename ρ = empty := rfl

@[simp] theorem openBlock_rename (s : Scope) : (s.rename ρ).openBlock = s.openBlock.rename ρ := rfl

@[simp] theorem closeBlock_rename (s : Scope) :
    (s.rename ρ).closeBlock = s.closeBlock.rename ρ := by
  simp [closeBlock, rename]

@[simp] theorem recordBackup_rename (s : Scope) (x : String) :
    (s.rename ρ).recordBackup (ρ x) = (s.recordBackup x).rename ρ := rfl

variable {ρ} (hρ : Function.Injective ρ)
include hρ

theorem hasBackup_rename (s : Scope) (x : String) :
    (s.rename ρ).hasBackup (ρ x) = s.hasBackup x := by
  unfold hasBackup rename
  rw [Bool.eq_iff_iff, List.contains_iff_mem, List.contains_iff_mem, List.mem_map_of_injective hρ]

/-- A declaration is found under its new name. As the map is injective, no
other one is in the way. -/
theorem lookup?_rename (s : Scope) (x : String) :
    (s.rename ρ).lookup? (ρ x) = (s.lookup? x).map (Symbol.rename ρ) := by
  have hname : (fun symbol : Symbol => (symbol.rename ρ).name == ρ x) = (·.name == x) :=
    funext fun _ => hρ.beq_eq
  unfold lookup? rename
  rw [List.find?_map, ← hname]
  rfl

/-- A binding is found in a block under its new name. By induction on the
block. -/
theorem lookup_map_rename (block : List (String × ValueType)) (x : String) :
    (block.map fun b => (ρ b.1, b.2)).lookup (ρ x) = block.lookup x := by
  induction block with
  | nil => rfl
  | cons b block ih => rw [List.map_cons, List.lookup_cons, List.lookup_cons, hρ.beq_eq, ih]

theorem binding?_rename (s : Scope) (x : String) :
    (s.rename ρ).binding? (ρ x) = s.binding? x := by
  unfold binding? rename
  rw [List.findSome?_map]
  exact congrArg (s.blocks.findSome? ·) (funext fun block => lookup_map_rename hρ block x)

/-- **A name means under its new form what it meant.** -/
theorem resolve?_rename (s : Scope) (x : String) :
    (s.rename ρ).resolve? (ρ x) = (s.resolve? x).map (Meaning.rename ρ) := by
  unfold resolve?
  rw [binding?_rename hρ, lookup?_rename hρ]
  cases s.binding? x with
  | some type => rfl
  | none => cases s.lookup? x <;> rfl

theorem isDefined_rename (s : Scope) (x : String) :
    (s.rename ρ).isDefined (ρ x) = s.isDefined x := by
  unfold isDefined
  rw [resolve?_rename hρ, Option.isSome_map]

variable (ρ) in
/-- **Two operations that do the same up to names.** Both succeed or both
fail, and the scopes that they leave have the same names. -/
structure Renames {ε ε' : Type} (op : EStateM ε Scope Unit) (op' : EStateM ε' Scope Unit) :
    Prop where
  ok : ∀ s u s', op s = .ok u s' → op' (s.rename ρ) = .ok u (s'.rename ρ)
  error : ∀ s e s', op s = .error e s' → ∃ e', op' (s.rename ρ) = .error e' (s'.rename ρ)

/-- A declaration does the same under a new name: it is refused in both scopes
or in neither. -/
theorem renames_declare (symbol : Symbol) :
    Renames ρ (declare symbol) (declare (symbol.rename ρ)) := by
  have hdefined (s : Scope) : (s.rename ρ).isDefined (symbol.rename ρ).name =
      s.isDefined symbol.name := isDefined_rename hρ s symbol.name
  constructor
  · intro s u s' h
    obtain ⟨hnew, rfl⟩ := s.declare_eq_ok.mp h
    refine (declare_eq_ok _).mpr ⟨(hdefined s).trans hnew, ?_⟩
    simp [rename, declared]
  · intro s e s' h
    obtain ⟨hold, -, rfl⟩ := s.declare_eq_error.mp h
    exact ⟨_, (declare_eq_error _).mpr ⟨(hdefined s').trans hold, rfl, rfl⟩⟩

theorem renames_bindName (x : String) (type : ValueType) :
    Renames ρ (bindName x type) (bindName (ρ x) type) := by
  constructor
  · intro s u s' h
    obtain ⟨hnew, block, blocks, hblocks, rfl⟩ := s.bindName_eq_ok.mp h
    have hnew' : (s.rename ρ).isDefined (ρ x) = false := (isDefined_rename hρ s x).trans hnew
    have hblocks' := congrArg (List.map (List.map fun b => (ρ b.1, b.2))) hblocks
    exact bindName_of_new _ type hnew' hblocks'
  · intro s e s' h
    obtain ⟨hrefused, -, rfl⟩ := s.bindName_eq_error.mp h
    refine ⟨_, bindName_of_refused _ type (hrefused.imp ?_ fun hblocks => ?_)⟩
    · exact (isDefined_rename hρ s' x).trans
    · rw [rename, hblocks, List.map_nil]

end Scope

end MapleCompiler
