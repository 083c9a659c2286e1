import MapleCompiler.Compilation
import MapleCompiler.Proofs.Library.Graph
import MapleCompiler.Proofs.Reading.Faults

/-!
# Errors point into the right text

An error says in which library it was found, or in none if it was found in the
unit, and at which span. A span is a pair of numbers and fits any text; this
module says that it belongs to *that* text. It is the span of one of its tokens,
or of the character that its scanner refuses (`Span.IsIn`), and where a library
cannot be imported it is the name after the `lib` that asks for it (`Asks`).

An error passes through every library that waits for the one it was found in, and
each of them puts its name on it (`CompileError.inLibrary`). Two facts make the
innermost name stay. An error that comes out of a text has no name yet, and
neither has a fault of an import (`Loader.AtImport`), so the library whose text
this is names it; and a name is never replaced, so that from then on nothing
changes (`Loader.Inside`). The walk goes from the one to the other by exactly one
step (`Loader.inside_of_import`).

Main statement: `errors_point_into_their_text`.
-/

namespace MapleCompiler

/-- **A span lies in a text**: it is that of a token, or of the character that
the scanner refuses. -/
def Span.IsIn (d : Dialect) (source : String) (span : Span) : Prop :=
  (∃ tokens, Token.scan d source = .ok tokens ∧ ∃ t ∈ tokens, span = t.span) ∨
    ∃ c, Token.scan d source = .error (.atSpan (.illegalCharacter c) span)

/-- **A text asks for a library**: it has the word `lib`, and right after it
the library's name, at the span. -/
def Asks (d : Dialect) (source name : String) (span : Span) : Prop :=
  ∃ before keyword t after, Token.scan d source = .ok (before ++ keyword :: t :: after) ∧
    keyword.kind = .lib ∧ t.kind = .libraryName ∧ t.lexeme = "@" ++ name ∧ span = t.span

namespace Loader

variable {loader : Loader Id}

/-- The library that a fault of an import is about. -/
def Blames (loader : Loader Id) (name : String) : Fault → Prop
  | .libraryNotFound missing => missing = name
  | .cyclicImport cyclic => cyclic = name
  | .libraryUnreadable place _ => place = loader.describe name
  | .importsTooDeep deep => deep = name
  | _ => False

/-- **A fault at a span of a text**: the span lies in the text, and if the
fault is that of an import, the text asks for the library there. -/
structure PointsInto (loader : Loader Id) (d : Dialect) (source : String) (fault : Fault)
    (span : Span) : Prop where
  isIn : span.IsIn d source
  asks : fault.isImport = true → ∃ name, loader.Blames name fault ∧ Asks d source name span

/-- **An error inside a library** that some names lead to: the loader has its
text, and the error points into it. -/
def Inside (loader : Loader Id) (roots : List String) (e : CompileError) : Prop :=
  ∃ library span source, e.library? = some library ∧ e.span? = some span ∧
    loader.Reaches roots library ∧ loader.has library = true ∧ loader.text library = .ok source ∧
    loader.PointsInto .maple source e.fault span

/-- An error of the import of `name` itself, at the place that asks for it. -/
def AtImport (loader : Loader Id) (name : String) (site? : Option Span) (e : CompileError) : Prop :=
  ∃ fault, loader.Blames name fault ∧ e = importError fault site?

end Loader

/-! ## Texts -/

namespace Program

variable {d : Dialect} {library : Bool} {source : String}

/-- **What reading a text fails with points into it**, and names no library.
Reading does not load anything, so its faults are those of the text itself. -/
theorem pointsInto_of_ofText (loader : Loader Id) {e : CompileError}
    (h : ofText d library source = .error e) :
    e.library? = none ∧
      ∃ span, e.span? = some span ∧ loader.PointsInto d source e.fault span := by
  have hown (span : Span) (hin : span.IsIn d source) : loader.PointsInto d source e.fault span := by
    refine ⟨hin, fun himport => ?_⟩
    rw [ofText_isOwn d library source e h] at himport
    cases himport
  obtain ⟨tokens, hscan, t, ht, fault, -, rfl⟩ | ⟨hscan, c, span, rfl⟩ := isAt_of_ofText h
  · exact ⟨rfl, t.span, rfl, hown _ (.inl ⟨tokens, hscan, t, ht, rfl⟩)⟩
  · exact ⟨rfl, span, rfl, hown _ (.inr ⟨c, hscan⟩)⟩

/-- **What a text imports, it asks for**, at the place that is kept with the
import. -/
theorem asks_of_importSite {unit : Program × List Warning} (h : ofText d library source = .ok unit)
    {site : String × Span} (hsite : site ∈ unit.1.importSites) :
    Asks d source site.1 site.2 := by
  obtain ⟨tokens, hscan, hasked⟩ := askedIn_of_ofText h
  obtain ⟨node, hnode, himport⟩ := List.mem_filterMap.mp hsite
  have hnodeAsked := hasked node hnode
  cases node with
  | useLibrary name span =>
    obtain rfl := Option.some.inj himport
    obtain ⟨keyword, t, ⟨before, after, hsplit⟩, hlib, hname, rfl, rfl⟩ := hnodeAsked _ rfl
    have htokens : tokens = before ++ keyword :: t :: after := by
      rw [← hsplit, List.append_assoc]
      rfl
    have hlexeme : Lexeme d .libraryName t.lexeme := by
      rw [← hname]
      refine Token.lexeme_of_scanFrom hscan t ?_ (by rw [hname]; nofun)
      rw [htokens]
      exact List.mem_append_right _ (List.mem_cons_of_mem _ List.mem_cons_self)
    exact ⟨before, keyword, t, after, htokens ▸ hscan, hlib, hname,
      hlexeme.libraryName_eq.symm, rfl⟩
  | _ => cases himport

end Program

/-- A text that asks for a library does so at one of its tokens, the one after
the keyword. -/
theorem Asks.isIn {d : Dialect} {source name : String} {span : Span}
    (h : Asks d source name span) : span.IsIn d source := by
  obtain ⟨before, keyword, t, after, hscan, -, -, -, rfl⟩ := h
  exact .inl ⟨_, hscan, t, List.mem_append_right _ (List.mem_cons_of_mem _ List.mem_cons_self), rfl⟩

/-! ## The walk through the libraries -/

namespace Loader

variable {loader : Loader Id} {roots : List String}

/-- Where a text asks for a library, a fault of its import points into the
text. -/
theorem pointsInto_of_asks {d : Dialect} {source name : String} {span : Span} {fault : Fault}
    (hasks : Asks d source name span) (hblames : loader.Blames name fault) :
    loader.PointsInto d source fault span :=
  ⟨hasks.isIn, fun _ => ⟨name, hblames, hasks⟩⟩

/-- What is inside a library stays there, whichever libraries wait for it: the
name that an error has already is not replaced. -/
theorem Inside.inLibrary {e : CompileError} (h : loader.Inside roots e) (name : String) :
    loader.Inside roots (e.inLibrary name) := by
  obtain ⟨library, span, source, hlibrary, rest⟩ := h
  refine ⟨library, span, source, ?_, rest⟩
  unfold CompileError.inLibrary
  rw [hlibrary]
  rfl

/-- A library whose text cannot be read as one has the error inside. The error
of the reading names no library, so it is given this one. -/
theorem inside_of_malformed {name source : String} {e : CompileError}
    (hreach : loader.Reaches roots name) (hc : loader.has name = true)
    (hl : loader.text name = .ok source) (hu : Program.ofText .maple true source = .error e) :
    loader.Inside roots (e.inLibrary name) := by
  obtain ⟨hlibrary, span, hspan, hpoints⟩ := Program.pointsInto_of_ofText loader hu
  refine ⟨name, span, source, ?_, hspan, hreach, hc, hl, hpoints⟩
  unfold CompileError.inLibrary
  rw [hlibrary]
  rfl

/-- **The step from a place that asks to the inside of a library**: what fails
where a library's text imports another one is inside that library, and all
else stays. -/
theorem inside_of_import {name source : String} {unit : Program × List Warning} {e : CompileError}
    (hreach : loader.Reaches roots name) (hr : loader.Reads name source unit)
    {site : String × Span} (hsite : site ∈ unit.1.importSites)
    (h : loader.AtImport site.1 (some site.2) e ∨ loader.Inside roots e) :
    loader.Inside roots (e.inLibrary name) := by
  obtain ⟨fault, hblames, rfl⟩ | hinside := h
  · obtain ⟨hc, hl, hu⟩ := hr
    exact ⟨name, site.2, source, rfl, rfl, hreach, hc, hl,
      pointsInto_of_asks (Program.asks_of_importSite hu hsite) hblames⟩
  · exact hinside.inLibrary name

/-- **Where compiling one library fails**: at the place that asks for it, or
inside a library that it leads to. By induction on the depth. -/
theorem located_of_compileOne (depth : Nat) :
    ∀ (opened : List String) (name : String) (site? : Option Span) (done : List Header)
      (e : CompileError), loader.Reaches roots name →
      loader.compileOne depth opened name site? done = .error e →
        loader.AtImport name site? e ∨ loader.Inside roots e := by
  induction depth using Nat.strongRecOn with
  | _ depth ih =>
    intro opened name site? done e hreach h
    cases fails_of_compileOne_eq_error h with
    | cyclic _ => exact .inl ⟨.cyclicImport name, rfl, rfl⟩
    | notFound _ => exact .inl ⟨.libraryNotFound name, rfl, rfl⟩
    | unreadable message _ _ =>
      exact .inl ⟨.libraryUnreadable (loader.describe name) message, rfl, rfl⟩
    | atBound _ _ _ => exact .inl ⟨.importsTooDeep name, rfl, rfl⟩
    | malformed source e hc hl hu => exact .inr (inside_of_malformed hreach hc hl hu)
    | inside below source unit e _ hd hr ha =>
      obtain ⟨site, hsite, done', he⟩ := exists_of_compileAll_eq_error ha
      have hi : loader.Imports name site.1 := ⟨source, unit, hr, List.mem_map_of_mem hsite⟩
      exact .inr (inside_of_import hreach hr hsite
        (ih below (by omega) _ _ _ done' e (hreach.tail hi) he))

/-- **Where resolving a program fails**: at one of its imports, or inside a
library that they lead to. The step that fails tells which of its imports it
was. -/
theorem located_of_resolve {program : Program} {e : CompileError}
    (h : loader.resolve program = .error e) :
    ∃ site ∈ program.importSites,
      loader.AtImport site.1 (some site.2) e ∨ loader.Inside program.imports e := by
  obtain ⟨site, hsite, done, he⟩ := exists_of_compileAll_eq_error h
  exact ⟨site, hsite, located_of_compileOne loader.limit [] _ _ done e
    ⟨site.1, List.mem_map_of_mem hsite, .refl⟩ he⟩

end Loader

/-! ## Units and libraries -/

section Compilation

variable {loader : Loader Id}

/-- **A compilation without its monad**: the text is read, its imports are
compiled with nothing opened, and the code is that of the program. -/
theorem compileUnit_eq (loader : Loader Id) (d : Dialect) (mode : Cpp.Mode) (source : String) :
    compileUnit loader d mode source =
      match Program.ofText d mode.isLibrary source with
      | .error e => .error e
      | .ok (p, warnings) =>
        match loader.compileAll loader.limit [] p.importSites [] with
        | .error e => .error e
        | .ok headers => .ok ⟨p.cpp mode, headers, warnings⟩ := by
  unfold compileUnit
  cases Program.ofText d mode.isLibrary source with
  | error e => rfl
  | ok read =>
    obtain ⟨p, warnings⟩ := read
    show (loader.resolve p >>= fun headers =>
      pure (CompiledUnit.mk (p.cpp mode) headers warnings)) = _
    rw [Loader.resolve_eq]
    dsimp only
    cases loader.compileAll loader.limit [] p.importSites [] <;> rfl

/-- **A unit is compiled** if it is read and its libraries are resolved. The
code of the unit does not depend on the libraries. -/
theorem compileUnit_eq_ok {d : Dialect} {mode : Cpp.Mode} {source : String}
    {unit : CompiledUnit} :
    compileUnit loader d mode source = .ok unit ↔
      ∃ p warnings headers, Program.ofText d mode.isLibrary source = .ok (p, warnings) ∧
        loader.resolve p = .ok headers ∧ unit = ⟨p.cpp mode, headers, warnings⟩ := by
  rw [compileUnit_eq]
  cases Program.ofText d mode.isLibrary source with
  | error e =>
    refine iff_of_false nofun ?_
    rintro ⟨_, _, _, hread, -⟩
    cases hread
  | ok read =>
    obtain ⟨p, warnings⟩ := read
    dsimp only
    cases hresolve : loader.compileAll loader.limit [] p.importSites [] with
    | error e =>
      refine iff_of_false nofun ?_
      rintro ⟨_, _, _, hread, hheaders, -⟩
      cases hread
      cases hresolve.symm.trans hheaders
    | ok headers =>
      refine ⟨fun hunit => ⟨p, warnings, headers, rfl, hresolve, (Except.ok.inj hunit).symm⟩, ?_⟩
      rintro ⟨_, _, _, hread, hheaders, rfl⟩
      cases hread
      cases hresolve.symm.trans hheaders
      rfl

/-- The compilation of a library without its monad: a walk that begins with
the library, of which the last header is kept. -/
theorem compileLibrary_eq (loader : Loader Id) (name : String) :
    compileLibrary loader name =
      match loader.compileOne loader.limit [] name none [] with
      | .error e => .error e
      | .ok headers =>
        match headers.getLast? with
        | some header => .ok header.code
        | none => .error (.plain (.libraryNotFound name)) := by
  have hbind (headers : List Header) (f : List Header → ExceptT CompileError Id String) :
      @bind (ExceptT CompileError Id) _ _ _ (.ok headers) f = f headers := rfl
  unfold compileLibrary
  cases hwalk : loader.compileOne loader.limit [] name none [] with
  | error e =>
    have hresolve : loader.resolveLibrary name = .error e := hwalk
    rw [hresolve]
    rfl
  | ok headers =>
    have hresolve : loader.resolveLibrary name = .ok headers := hwalk
    rw [hresolve, hbind]
    dsimp only
    cases headers.getLast? <;> rfl

/-- **A unit fails** if it cannot be read, or its libraries cannot be
resolved. In the second case its own text was read without a fault. -/
theorem cases_of_compileUnit_eq_error {d : Dialect} {mode : Cpp.Mode} {source : String}
    {e : CompileError} (h : compileUnit loader d mode source = .error e) :
    Program.ofText d mode.isLibrary source = .error e ∨
      ∃ unit, Program.ofText d mode.isLibrary source = .ok unit ∧
        loader.resolve unit.1 = .error e := by
  unfold compileUnit at h
  cases hread : Program.ofText d mode.isLibrary source with
  | error e' =>
    rw [hread] at h
    cases h
    exact .inl rfl
  | ok unit =>
    rw [hread] at h
    obtain ⟨p, warnings⟩ := unit
    change (loader.resolve p >>= fun headers =>
      (pure ⟨p.cpp mode, headers, warnings⟩ : ExceptT CompileError Id CompiledUnit)) = .error e at h
    cases hresolve : loader.resolve p with
    | error e' =>
      rw [hresolve] at h
      obtain rfl : e' = e := Except.error.inj h
      exact .inr ⟨_, rfl, hresolve⟩
    | ok headers =>
      rw [hresolve] at h
      cases h

/-- **A library fails** if the walk that begins with it does: a walk that
succeeds ends with its header. -/
theorem compileOne_of_compileLibrary_eq_error {name : String} {e : CompileError}
    (h : compileLibrary loader name = .error e) :
    loader.compileOne loader.limit [] name none [] = .error e := by
  rw [compileLibrary_eq] at h
  cases hwalk : loader.compileOne loader.limit [] name none [] with
  | error e' =>
    rw [hwalk] at h
    exact congrArg Except.error (Except.error.inj h)
  | ok headers =>
    rw [hwalk] at h
    dsimp only at h
    obtain ⟨hnil, -⟩ | ⟨-, -, below, source, unit, before, -, -, -, rfl⟩ :=
      (loader.compileOne_eq_ok_iff ..).mp hwalk
    · exact absurd hnil List.not_mem_nil
    · rw [List.getLast?_concat] at h
      cases h

/-- **The errors of a unit** are in its own text or inside a library that its
imports lead to. Errors of its own imports are of the first sort. -/
theorem located_of_compileUnit {d : Dialect} {mode : Cpp.Mode} {source : String}
    {e : CompileError} (h : compileUnit loader d mode source = .error e) :
    (e.library? = none ∧
      ∃ span, e.span? = some span ∧ loader.PointsInto d source e.fault span) ∨
    ∃ unit, Program.ofText d mode.isLibrary source = .ok unit ∧
      loader.Inside unit.1.imports e := by
  obtain hread | ⟨unit, hread, hresolve⟩ := cases_of_compileUnit_eq_error h
  · exact .inl (Program.pointsInto_of_ofText loader hread)
  · obtain ⟨site, hsite, ⟨fault, hblames, rfl⟩ | hinside⟩ := Loader.located_of_resolve hresolve
    · exact .inl ⟨rfl, site.2, rfl,
        Loader.pointsInto_of_asks (Program.asks_of_importSite hread hsite) hblames⟩
    · exact .inr ⟨unit, hread, hinside⟩

/-- **The errors of a library** are inside it or inside a library that it
leads to, unless it is not there or cannot be read: then they have no
place. -/
theorem located_of_compileLibrary {name : String} {e : CompileError}
    (hroom : loader.has name = true → 0 < loader.limit)
    (h : compileLibrary loader name = .error e) :
    ((loader.has name = false ∨ ∃ message, loader.text name = .error message) ∧
      e.span? = none ∧ e.library? = none) ∨
    ((loader.has name = true ∧ ∃ source, loader.text name = .ok source) ∧
      loader.Inside [name] e) := by
  have hroot : loader.Reaches [name] name := ⟨name, List.mem_singleton_self _, .refl⟩
  cases Loader.fails_of_compileOne_eq_error (compileOne_of_compileLibrary_eq_error h) with
  | cyclic ho => exact absurd ho List.not_mem_nil
  | notFound hc => exact .inl ⟨.inl hc, rfl, rfl⟩
  | unreadable message _ hl => exact .inl ⟨.inr ⟨message, hl⟩, rfl, rfl⟩
  | atBound _ hc hd => exact absurd (hroom hc) (hd ▸ Nat.lt_irrefl 0)
  | malformed source e hc hl hu =>
    exact .inr ⟨⟨hc, source, hl⟩, Loader.inside_of_malformed hroot hc hl hu⟩
  | inside below source unit e _ hd hr ha =>
    obtain ⟨site, hsite, done, he⟩ := Loader.exists_of_compileAll_eq_error ha
    have hi : loader.Imports name site.1 := ⟨source, unit, hr, List.mem_map_of_mem hsite⟩
    exact .inr ⟨⟨hr.1, source, hr.2.1⟩, Loader.inside_of_import hroot hr hsite
      (Loader.located_of_compileOne below _ _ _ done e (hroot.tail hi) he)⟩

end Compilation

/-- **Errors point into the right text.** An error of a unit always has a
span. If it names no library, the span lies in the text of the unit. If it
names one, that library is reached through imports, the loader has its text,
and the span lies in that text. A fault of an import is, in the text that it
lies in, at the name after the `lib` that asks for the library.

The same holds for a library that is compiled by itself, except that an error
has no span and names no library exactly if there is no such library or it
cannot be read. (The bound of the loader has to leave room for the
library.) -/
theorem errors_point_into_their_text (loader : Loader Id) :
    (∀ (d : Dialect) (mode : Cpp.Mode) (source : String) (e : CompileError),
      compileUnit loader d mode source = .error e →
        ∃ span, e.span? = some span ∧
          (e.library? = none → loader.PointsInto d source e.fault span) ∧
          ∀ library, e.library? = some library →
            ∃ unit text, Program.ofText d mode.isLibrary source = .ok unit ∧
              loader.Reaches unit.1.imports library ∧ loader.has library = true ∧
              loader.text library = .ok text ∧ loader.PointsInto .maple text e.fault span) ∧
    (∀ (name : String) (e : CompileError), (loader.has name = true → 0 < loader.limit) →
      compileLibrary loader name = .error e →
        (e.span? = none ↔ loader.has name = false ∨ ∃ message, loader.text name = .error message) ∧
        (e.library? = none ↔ e.span? = none) ∧
        ∀ span library, e.span? = some span → e.library? = some library →
          ∃ text, loader.Reaches [name] library ∧ loader.has library = true ∧
            loader.text library = .ok text ∧ loader.PointsInto .maple text e.fault span) := by
  constructor
  · intro d mode source e h
    obtain ⟨hnone, span, hspan, hpoints⟩ |
      ⟨unit, hread, library, span, text, hlibrary, hspan, hreach, hc, hl, hpoints⟩ :=
      located_of_compileUnit h
    · refine ⟨span, hspan, fun _ => hpoints, fun library hlibrary => ?_⟩
      rw [hnone] at hlibrary
      cases hlibrary
    · refine ⟨span, hspan, fun hnone => ?_, fun library' hlibrary' => ?_⟩
      · rw [hlibrary] at hnone
        cases hnone
      · obtain rfl := Option.some.inj (hlibrary.symm.trans hlibrary')
        exact ⟨unit, text, hread, hreach, hc, hl, hpoints⟩
  · intro name e hroom h
    obtain ⟨hmissing, hspan, hlibrary⟩ |
      ⟨⟨hc, source, hl⟩, library, span, text, hlibrary, hspan, hinside⟩ :=
      located_of_compileLibrary hroom h
    · rw [hspan, hlibrary]
      exact ⟨iff_of_true rfl hmissing, iff_of_true rfl rfl, nofun⟩
    · rw [hspan, hlibrary]
      refine ⟨iff_of_false nofun ?_, iff_of_false nofun nofun, fun span' library' h h' => ?_⟩
      · rintro (hmissing | ⟨message, hmessage⟩)
        · rw [hc] at hmissing
          cases hmissing
        · rw [hl] at hmessage
          cases hmessage
      · obtain rfl := Option.some.inj h
        obtain rfl := Option.some.inj h'
        exact ⟨text, hinside⟩

/-- The error that a computation ends with, for computations that are run. -/
def errorOf? {α : Type} : Except CompileError α → Option CompileError
  | .ok _ => none
  | .error e => some e

theorem eq_error_of_errorOf? {α : Type} {x : Except CompileError α} {e : CompileError}
    (h : errorOf? x = some e) : x = .error e := by
  cases x with
  | ok a => cases h
  | error e' => rw [Option.some.inj h]

/-- A library that imports a missing one. -/
def incompleteShelf : Shelf := [("a", .text "dec i32 x 1\n lib @b")]

/-- The missing library, at its name in the text of the library that imports
it. -/
def missingImport : CompileError := ⟨.libraryNotFound "b", some ⟨17, 2, 2, 6⟩, some "a"⟩

/-- A unit that imports the library, and the library by itself, fail at the
same place, in the text of the library. -/
theorem errors_point_into_their_text_nested :
    compileUnit incompleteShelf.pureLoader .maple .program "lib @a" = .error missingImport ∧
      compileLibrary incompleteShelf.pureLoader "a" = .error missingImport ∧
      (incompleteShelf.pureLoader.has "a" = true → 0 < incompleteShelf.pureLoader.limit) ∧
      (∃ text, incompleteShelf.pureLoader.text "a" = .ok text ∧
        incompleteShelf.pureLoader.PointsInto .maple text missingImport.fault ⟨17, 2, 2, 6⟩) ∧
      ¬(incompleteShelf.pureLoader.has "a" = false ∨
        ∃ message, incompleteShelf.pureLoader.text "a" = .error message) := by
  have hunit : compileUnit incompleteShelf.pureLoader .maple .program "lib @a" =
      .error missingImport := eq_error_of_errorOf? (by decide +kernel)
  have hlibrary : compileLibrary incompleteShelf.pureLoader "a" = .error missingImport :=
    eq_error_of_errorOf? (by decide +kernel)
  have hroom : incompleteShelf.pureLoader.has "a" = true → 0 < incompleteShelf.pureLoader.limit :=
    fun _ => Nat.one_pos
  obtain ⟨hunits, hlibraries⟩ := errors_point_into_their_text incompleteShelf.pureLoader
  obtain ⟨span, hspan, -, hinside⟩ := hunits _ _ _ _ hunit
  obtain rfl := Option.some.inj hspan
  obtain ⟨unit, text, -, -, -, htext, hpoints⟩ := hinside "a" rfl
  refine ⟨hunit, hlibrary, hroom, ⟨text, htext, hpoints⟩, fun hmissing => ?_⟩
  cases (hlibraries _ _ hroom hlibrary).1.mpr hmissing

end MapleCompiler
