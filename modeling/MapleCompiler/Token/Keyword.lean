import MapleCompiler.Language.Dialect
import MapleCompiler.Token.Kind

/-!
# Reserved words and marks

Each dialect has a table of reserved words and a table of marks. The word
table is read both ways: `Dialect.keyword?` gives the kind of a word, and
`Dialect.spelling?` the word of a kind, for messages. The mark table lists
longer marks first, so that its first match is the longest.
-/

namespace MapleCompiler.Dialect

/-- The words that both dialects reserve. -/
def sharedKeywords : List (String × TokenKind) :=
  [("run", .run), ("dec", .dec), ("set", .set), ("ch", .ch), ("out", .out), ("if", .ifWord),
    ("end", .endWord), ("roll", .roll), ("back", .back), ("load", .load), ("fnc", .fnc),
    ("i8", .type .i8), ("i16", .type .i16), ("i32", .type .i32), ("i64", .type .i64),
    ("bool", .type .bool), ("str", .type .str), ("f32", .type .f32), ("f64", .type .f64)]

/-- The words that only one dialect reserves. -/
def ownKeywords : Dialect → List (String × TokenKind)
  | legacy => [("around", .loop), ("return", .rtn)]
  | maple =>
    [("loop", .loop), ("rtn", .rtn), ("elif", .elifWord), ("else", .elseWord),
      ("char", .type .char), ("empty", .type .empty), ("true", .boolean true),
      ("false", .boolean false), ("add", .arithmetic .add), ("sub", .arithmetic .sub),
      ("mul", .arithmetic .mul), ("div", .arithmetic .div), ("mod", .arithmetic .mod),
      ("lib", .lib), ("init", .init)]

/-- All reserved words of a dialect. -/
def keywords (d : Dialect) : List (String × TokenKind) :=
  sharedKeywords ++ d.ownKeywords

/-- The kind of a reserved word. -/
def keyword? (d : Dialect) (word : String) : Option TokenKind :=
  d.keywords.lookup word

/-- The reserved word of a kind. -/
def spelling? (d : Dialect) (kind : TokenKind) : Option String :=
  (d.keywords.find? (·.2 == kind)).map (·.1)

/-- The marks of two characters that a dialect has. -/
def longMarks (d : Dialect) : List (List Char × TokenKind) :=
  [(['=', '='], .comparison .equal), (['-', '>'], .arrow), (['.', '.'], .dotDot)] ++
  (if d.supports .extendedComparisons then
    [(['>', '='], .comparison .greaterEqual), (['<', '='], .comparison .lessEqual),
      (['!', '='], .comparison .notEqual)]
  else []) ++
  (if d.supports .arithmetic then [(['=', '>'], .into)] else [])

/-- The marks of one character, which both dialects have. -/
def shortMarks : List (List Char × TokenKind) :=
  [([':'], .colon), ([','], .comma), (['['], .leftBracket), ([']'], .rightBracket),
    (['\x7b'], .leftBrace), (['\x7d'], .rightBrace), (['>'], .comparison .greater),
    (['<'], .comparison .less), (['-'], .operator), (['+'], .operator), (['*'], .operator),
    (['/'], .operator)]

/-- All marks of a dialect, longer ones first. -/
def marks (d : Dialect) : List (List Char × TokenKind) :=
  d.longMarks ++ shortMarks

end MapleCompiler.Dialect
