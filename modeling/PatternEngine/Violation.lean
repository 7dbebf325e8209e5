import PatternEngine.Ident
import PatternEngine.Text.Utf8

/-!
# Violations

Problems in a pattern or a source are reported as records. A record holds the cause of
the problem as data; its wording, the stage that found it and its severity are functions
of the cause.
-/

namespace PatternEngine

/-- What the grammar requires at some place. -/
inductive Expected where
  /-- A statement. -/
  | statement
  /-- The name of a package. -/
  | packageName
  /-- The name behind `as`. -/
  | importAlias
  /-- The name that a binding defines. -/
  | bindingName
  /-- An expression. -/
  | expression
  /-- The end of a group in parentheses. -/
  | closingParenthesis
  /-- The end of a group in braces. -/
  | closingBrace
  deriving DecidableEq, Repr

/-- What is required, in words. -/
def Expected.text : Expected → String
  | .statement => "a statement"
  | .packageName => "package name"
  | .importAlias => "import alias"
  | .bindingName => "a binding name"
  | .expression => "an expression"
  | .closingParenthesis => "')'"
  | .closingBrace => "'\x7d'"

/-- Groups, predicates, repetitions and nested sets may be nested this deep. -/
def nestingLimit : Nat := 100

/-- A compiled pattern has at most this many levels, each reference being one. -/
def patternDepthLimit : Nat := 400

/-- Why a text is not in the language. -/
inductive ParseCause where
  /-- The expression is blank. -/
  | emptyExpression
  /-- No expression starts or goes on with this character. -/
  | unexpected (c : Char)
  /-- The text ends where an operand should stand. -/
  | endOfExpression
  /-- Something that the grammar requires is missing. -/
  | expected (what : Expected)
  /-- A package declaration stands behind another statement. -/
  | packageNotFirst
  /-- More levels than `nestingLimit`. -/
  | nestingTooDeep
  /-- A binding defines a name with a prefix. -/
  | qualifiedBinding (name : Ident)
  /-- A reserved word stands where a name should. -/
  | reservedWord (name : Ident)
  /-- A name at the start of a statement is not followed by an equals sign. -/
  | missingEquals (name : Ident)
  /-- The source ends behind an equals sign. -/
  | missingExpression (name : Ident)
  /-- Braces that hold neither numbers nor an expression. -/
  | invalidBounds
  /-- A bound does not fit in 32 bits. -/
  | boundTooLarge
  /-- The upper bound is less than the lower. -/
  | reversedBounds (text : String)
  /-- No closing quote. -/
  | unterminatedLiteral
  /-- The text ends behind a backslash. -/
  | unterminatedEscape
  /-- The escape `\x` is not followed by a byte in hexadecimal. -/
  | invalidHexEscape
  /-- No escape has this letter. -/
  | invalidEscape (c : Char)
  /-- No closing bracket. -/
  | unterminatedSet
  /-- No class has this name. -/
  | unknownClass (name : String)
  /-- The last byte of a range is less than its first. -/
  | reversedRange
  deriving DecidableEq, Repr

/-- The wording of a cause. -/
def ParseCause.message : ParseCause → String
  | .emptyExpression => "empty pattern expression"
  | .unexpected c => "unexpected '" ++ c.toString ++ "'"
  | .endOfExpression => "unexpected end of expression"
  | .expected what => "expected " ++ what.text
  | .packageNotFirst => "package declaration must be the first statement"
  | .nestingTooDeep => "expression nests more than " ++ nestingLimit.repr ++ " levels deep"
  | .qualifiedBinding name => "cannot bind qualified name '" ++ name.toText ++ "'"
  | .reservedWord name => "'" ++ name.toText ++ "' is a reserved word"
  | .missingEquals name => "expected '=' after '" ++ name.toText ++ "'"
  | .missingExpression name => "missing expression for '" ++ name.toText ++ "'"
  | .invalidBounds => "invalid repetition bounds"
  | .boundTooLarge => "repetition bound too large"
  | .reversedBounds text => "repetition bounds \x7b" ++ text ++ "\x7d are reversed"
  | .unterminatedLiteral => "unterminated string literal"
  | .unterminatedEscape => "unterminated escape"
  | .invalidHexEscape => "invalid \\x escape"
  | .invalidEscape c => "invalid escape '\\" ++ c.toString ++ "'"
  | .unterminatedSet => "missing ']' in character set"
  | .unknownClass name => "unknown character class '" ++ name ++ "'"
  | .reversedRange => "character range is reversed"

/-- Why the definitions of a source cannot be stored. -/
inductive LoadCause where
  /-- A name is bound twice; the other binding is at this position. -/
  | duplicate (name : String) (first : Nat)
  /-- A name without prefix is not defined. -/
  | undefinedName (name : Ident)
  /-- The prefix of a name is not imported. -/
  | unknownPrefix (qualifier : String) (name : Ident)
  /-- A source file cannot be opened. -/
  | cannotOpen (fault : String)
  deriving DecidableEq, Repr

/-- The wording of a cause. -/
def LoadCause.message : LoadCause → String
  | .duplicate name first =>
    "'" ++ name ++ "' is already defined (at position " ++ first.repr ++ ")"
  | .undefinedName name => "undefined identifier: " ++ name.toText
  | .unknownPrefix qualifier name =>
    "no package imported as '" ++ qualifier ++ "' (in " ++ name.toText ++ ")"
  | .cannotOpen fault => "cannot open file: " ++ fault

/-- Why a package cannot be imported. -/
inductive ImportCause where
  /-- The source declares another package. -/
  | wrongPackage (declared expected : String)
  /-- The source declares no package. -/
  | undeclaredPackage (expected : String)
  /-- The package is not loaded. -/
  | notLoaded (name : String)
  /-- No directory of the library path holds the package. -/
  | notFound (name libpath : String)
  deriving DecidableEq, Repr

/-- The wording of a cause. -/
def ImportCause.message : ImportCause → String
  | .wrongPackage declared expected =>
    "source declares package '" ++ declared ++ "', expected '" ++ expected ++ "'"
  | .undeclaredPackage expected => "source for '" ++ expected ++ "' has no package declaration"
  | .notLoaded name => "package '" ++ name ++ "' is not loaded"
  | .notFound name libpath =>
    "cannot find package '" ++ name ++ "' in libpath " ++ libpath

/-- Why an expression does not compile, or what is dubious about it. -/
inductive CompileCause where
  /-- A name is not bound in its scope. -/
  | undefinedName (name : Ident)
  /-- The prefix of a name is not bound in its scope. -/
  | unknownPrefix (qualifier : String)
  /-- The package behind a prefix is not loaded. -/
  | notLoaded (package : String)
  /-- The binding is for its own package alone. -/
  | localName (name package : String)
  /-- A binding refers to itself. -/
  | recursive (name : Ident)
  /-- More levels than `patternDepthLimit`. -/
  | tooDeep
  /-- The pattern can match without consuming anything. -/
  | matchesEmpty
  deriving DecidableEq, Repr

/-- The wording of a cause. -/
def CompileCause.message : CompileCause → String
  | .undefinedName name => "undefined identifier: " ++ name.toText
  | .unknownPrefix qualifier => "no package imported as '" ++ qualifier ++ "'"
  | .notLoaded package => "package '" ++ package ++ "' is not loaded"
  | .localName name package => "'" ++ name ++ "' is local to package '" ++ package ++ "'"
  | .recursive name =>
    "recursive definition of '" ++ name.toText ++ "' (grammars are not supported)"
  | .tooDeep => "pattern nests more than " ++ patternDepthLimit.repr ++ " levels deep"
  | .matchesEmpty => "pattern can match the empty string"

/-- The stage that found a problem. -/
inductive Stage where
  /-- Reading a text. -/
  | parser
  /-- Resolving the references of an expression. -/
  | compiler
  /-- Storing the definitions of a source. -/
  | loader
  /-- Finding the source of a package. -/
  | importer
  deriving DecidableEq, Repr

/-- The name of a stage. -/
def Stage.name : Stage → String
  | .parser => "parser"
  | .compiler => "compiler"
  | .loader => "loader"
  | .importer => "importer"

/-- How grave a problem is. -/
inductive Severity where
  /-- The operation failed. -/
  | error
  /-- The operation succeeded. -/
  | warning
  deriving DecidableEq, Repr

/-- The name of a severity. -/
def Severity.name : Severity → String
  | .error => "error"
  | .warning => "warning"

/-- The cause of a problem at any stage. -/
inductive Cause where
  /-- Found while a text was read. -/
  | parsing (cause : ParseCause)
  /-- Found while definitions were stored. -/
  | loading (cause : LoadCause)
  /-- Found while a package was looked for. -/
  | importing (cause : ImportCause)
  /-- Found while references were resolved. -/
  | compiling (cause : CompileCause)
  deriving DecidableEq, Repr

namespace Cause

/-- The wording of a cause. -/
def message : Cause → String
  | .parsing cause => cause.message
  | .loading cause => cause.message
  | .importing cause => cause.message
  | .compiling cause => cause.message

/-- The stage that finds a cause. -/
def stage : Cause → Stage
  | .parsing _ => .parser
  | .loading _ => .loader
  | .importing _ => .importer
  | .compiling _ => .compiler

/-- Matching the empty text is only dubious; every other cause is an error. -/
def severity : Cause → Severity
  | .compiling .matchesEmpty => .warning
  | _ => .error

end Cause

/-- A problem in a pattern or a source. -/
structure Violation where
  /-- What is wrong. -/
  cause : Cause
  /-- The file the source was read from. -/
  origin : Option String := none
  /-- Where in the source, counted in bytes from one. -/
  pos : Option Nat := none
  /-- The part of the source or the name that is concerned. -/
  fragment : Option String := none
  deriving DecidableEq, Repr

namespace Violation

/-- The operation that reports the violation failed. -/
def isError (v : Violation) : Bool := v.cause.severity = .error

/-- Name the file of the source, unless one is named already. -/
def withOrigin (origin : Option String) (v : Violation) : Violation :=
  { v with origin := v.origin.or origin }

end Violation

/-- A parse that failed: the cause and the place. -/
structure ParseError where
  /-- What is wrong. -/
  cause : ParseCause
  /-- Where it is wrong. -/
  place : Cursor
  deriving DecidableEq, Repr

/-- Report a failed parse. The fragment is what lies ahead, up to sixteen bytes; a package
declaration in the wrong place is reported without one. -/
def ParseError.toViolation (e : ParseError) : Violation where
  cause := .parsing e.cause
  pos := some (e.place.pos + 1)
  fragment :=
    if e.cause = .packageNotFirst then none
    else some (Utf8.decodeLossy (e.place.rest.take 16))

end PatternEngine
