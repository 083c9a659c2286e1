import MapleCompiler.Language.ValueType

/-!
# Kinds of tokens

A `TokenKind` says what a lexeme is to the grammar. Where several lexemes play
one role the kind carries the choice: the type a type word names, the operation
an arithmetic word stands for, the comparison a mark writes.
-/

namespace MapleCompiler

/-- The comparisons of conditions. -/
inductive Comparison
  | greater
  | less
  | equal
  | greaterEqual
  | lessEqual
  | notEqual
deriving DecidableEq

/-- The operations of arithmetic statements. -/
inductive Arithmetic
  | add
  | sub
  | mul
  | div
  | mod
deriving DecidableEq

/-- The mark of a comparison, the same in scripts and in C++. -/
def Comparison.mark : Comparison → String
  | greater => ">"
  | less => "<"
  | equal => "=="
  | greaterEqual => ">="
  | lessEqual => "<="
  | notEqual => "!="

/-- All comparisons. -/
def Comparison.all : List Comparison :=
  [greater, less, equal, greaterEqual, lessEqual, notEqual]

/-- The mark of an operation in C++. -/
def Arithmetic.mark : Arithmetic → String
  | add => "+"
  | sub => "-"
  | mul => "*"
  | div => "/"
  | mod => "%"

/-- All operations. -/
def Arithmetic.all : List Arithmetic := [add, sub, mul, div, mod]

/-- **What a lexeme is to the grammar.** -/
inductive TokenKind
  | number
  | identifier
  | run
  | dec
  | set
  | ch
  | out
  | ifWord
  | elifWord
  | elseWord
  | endWord
  | loop
  | roll
  | back
  | load
  | fnc
  | rtn
  | lib
  | init
  /-- An arithmetic word. -/
  | arithmetic (op : Arithmetic)
  /-- `true` or `false`. -/
  | boolean (value : Bool)
  /-- A type word. -/
  | type (type : ValueType)
  /-- `@name`. -/
  | libraryName
  /-- `@name::`. -/
  | qualifier
  | colon
  | comma
  | leftBracket
  | rightBracket
  | leftBrace
  | rightBrace
  /-- `->`. -/
  | arrow
  /-- `=>`. -/
  | into
  /-- `..`. -/
  | dotDot
  | comparison (op : Comparison)
  /-- `+`, `-`, `*` or `/`, which no statement uses. -/
  | operator
  /-- The end of the text. -/
  | eof
deriving DecidableEq

namespace TokenKind

/-- All kinds. -/
def all : List TokenKind :=
  [number, identifier, run, dec, set, ch, out, ifWord, elifWord, elseWord, endWord, loop, roll,
    back, load, fnc, rtn, lib, init] ++ Arithmetic.all.map arithmetic ++
  [boolean true, boolean false] ++ ValueType.all.map type ++
  [libraryName, qualifier, colon, comma, leftBracket, rightBracket, leftBrace, rightBrace, arrow,
    into, dotDot] ++ Comparison.all.map comparison ++ [operator, eof]

/-- The name of a kind in token listings. -/
def name : TokenKind → String
  | number => "Number"
  | identifier => "Identifier"
  | run => "Run"
  | dec => "Dec"
  | set => "Set"
  | ch => "Ch"
  | out => "Out"
  | ifWord => "If"
  | elifWord => "Elif"
  | elseWord => "Else"
  | endWord => "End"
  | loop => "Loop"
  | roll => "Roll"
  | back => "Back"
  | load => "Load"
  | fnc => "Fnc"
  | rtn => "Rtn"
  | lib => "Lib"
  | init => "Init"
  | arithmetic .add => "Add"
  | arithmetic .sub => "Sub"
  | arithmetic .mul => "Mul"
  | arithmetic .div => "Div"
  | arithmetic .mod => "Mod"
  | boolean true => "True"
  | boolean false => "False"
  | type .i8 => "I8"
  | type .i16 => "I16"
  | type .i32 => "I32"
  | type .i64 => "I64"
  | type .bool => "Bool"
  | type .str => "Str"
  | type .f32 => "F32"
  | type .f64 => "F64"
  | type .char => "Char"
  | type .empty => "Empty"
  | libraryName => "ModuleName"
  | qualifier => "QualifiedName"
  | colon => "Colon"
  | comma => "Comma"
  | leftBracket => "LeftBracket"
  | rightBracket => "RightBracket"
  | leftBrace => "LeftBrace"
  | rightBrace => "RightBrace"
  | arrow => "Arrow"
  | into => "Into"
  | dotDot => "DotDot"
  | comparison .greater => "Greater"
  | comparison .less => "Less"
  | comparison .equal => "EqualEqual"
  | comparison .greaterEqual => "GreaterEqual"
  | comparison .lessEqual => "LessEqual"
  | comparison .notEqual => "BangEqual"
  | operator => "Operator"
  | eof => "Eof"

/-- The kind with a given name. -/
def ofName? (name : String) : Option TokenKind :=
  all.find? (·.name == name)

/-- The type that a kind names. -/
def valueType? : TokenKind → Option ValueType
  | type t => some t
  | _ => none

/-- Whether the kind is a comparison. -/
def isComparison : TokenKind → Bool
  | comparison _ => true
  | _ => false

/-- Whether the kind closes a block; such a token starts no statement. -/
def isTerminator : TokenKind → Bool
  | endWord | elifWord | elseWord | roll => true
  | _ => false

/-- Whether the kind is a literal. -/
def isLiteral : TokenKind → Bool
  | number | boolean _ => true
  | _ => false

/-- Whether the kind is a name or a literal. -/
def isOperand : TokenKind → Bool
  | identifier => true
  | k => k.isLiteral

end TokenKind

end MapleCompiler
