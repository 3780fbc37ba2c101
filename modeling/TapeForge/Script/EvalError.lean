import TapeForge.Script.Argument
import TapeForge.Script.Key

/-!
# Why a script fails

The causes for which an expression or statement of a running script fails, and the text that is
shown for each.
-/

namespace TapeForge.Script

inductive FormatError where
  | incompleteKey
  | needsMapping
  | keyNotFound (key : Bytes)
  | notEnough
  | tooMany
  | incomplete
  | needsInteger (conversion : Char) (why : String)
  | needsFloat (conversion : Char) (type : String)
  | badCodePoint (n : Int)
  | needsCharacter
  | needsIntOrText (type : String)
  | unknownConversion (c : Char)
  | loneBrace
  | unmatchedBrace
  | manualToAutomatic
  | automaticToManual
  | outOfRange
  | dotted (name : Bytes)
  | indexed (name : Bytes)
  | nested
  | keywordNotFound (name : Bytes)
  | spec (spec : Bytes)
  | unknownField (conversion : Bytes)
  deriving Repr, DecidableEq

def FormatError.message : FormatError → String
  | incompleteKey => "incomplete format key"
  | needsMapping => "format requires a mapping"
  | keyNotFound key => "key not found: " ++ key.toText
  | notEnough => "not enough arguments for format string"
  | tooMany => "too many arguments for format string"
  | incomplete => "incomplete format"
  | needsInteger c why => "%" ++ String.singleton c ++ " format requires integer: " ++ why
  | needsFloat c type => "%" ++ String.singleton c ++ " format requires float, not " ++ type
  | badCodePoint n => "%c format requires a valid Unicode code point, got " ++ Decimal.ofInt n
  | needsCharacter => "%c format requires a single-character string"
  | needsIntOrText type => "%c format requires int or string, not " ++ type
  | unknownConversion c => "unknown conversion %" ++ String.singleton c
  | loneBrace => "format: single '\x7d' in format"
  | unmatchedBrace => "format: unmatched '\x7b' in format"
  | manualToAutomatic =>
    "format: cannot switch from manual field specification to automatic field numbering"
  | automaticToManual =>
    "format: cannot switch from automatic field numbering to manual field specification"
  | outOfRange => "format: tuple index out of range"
  | dotted name =>
    "format: attribute syntax x.y is not supported in replacement fields: " ++ name.toText
  | indexed name =>
    "format: element syntax a[i] is not supported in replacement fields: " ++ name.toText
  | nested => "format: nested replacement fields not supported"
  | keywordNotFound name => "format: keyword " ++ name.toText ++ " not found"
  | spec s => "format spec features not supported in replacement fields: " ++ s.toText
  | unknownField conversion => "format: unknown conversion " ++ Quoted.text conversion

/-- Why the arguments of a call do not fit the parameters of a function. -/
inductive BindError where
  | none (given : Nat)
  | tooMany (atMost : Bool) (want given : Nat)
  | repeated (name : Bytes)
  | unknown (name : Bytes)
  | missing (names : List String)
  deriving Repr, DecidableEq

def plural (n : Nat) : String := if n = 1 then "" else "s"

/-- The text shown for arguments that do not fit, after the name of the function. -/
def BindError.message : BindError → String
  | none given => "accepts no arguments (" ++ Decimal.ofNat given ++ " given)"
  | tooMany atMost want given =>
    "accepts " ++ (if atMost then "at most " else "") ++ Decimal.ofNat want ++
      " positional argument" ++ plural want ++ " (" ++ Decimal.ofNat given ++ " given)"
  | repeated name => "got multiple values for parameter " ++ Quoted.text name
  | unknown name => "got an unexpected keyword argument " ++ Quoted.text name
  | missing names =>
    "missing " ++ Decimal.ofNat names.length ++ " argument" ++ plural names.length ++ " (" ++
      String.intercalate ", " names ++ ")"

/-- Why an expression or statement of a script fails. Two are no errors of the script: nothing goes
on after what is `aborted`, which is how a panic ends a script, and what is `endless` never comes
back. -/
inductive EvalError where
  | call (e : CallError)
  | key (e : KeyFault)
  | format (e : FormatError)
  | bind (function : String) (e : BindError)
  | inCall (callee : String) (why : EvalError)
  | unknownBinary (left op right : String)
  | unknownUnary (op operand : String)
  | notComparable (left op right : String)
  | floorDivisionByZero
  | divisionByZero
  | moduloByZero
  | floatModuloByZero
  | negativeShift (n : Int)
  | largeShift (n : Int)
  | repeatTooLarge (n : Int)
  | excessiveRepeat (length : Nat) (n : Int)
  | wantInt (got : String)
  | smallIntRange (n : Int)
  | byteRange (n : Int)
  | tooLargeForFloat
  | noInteger (what : String)
  | badNeedle (container want got : String)
  | byteNeedle (why : EvalError)
  | missingKey (key : String)
  | duplicateKey (key : String)
  | badIndex (type : String) (why : EvalError)
  | indexOutOfRange (type : String) (i length : Int)
  | unhandledIndex (type index : String)
  | unhandledSlice (type : String)
  | badBound (part : String) (why : EvalError)
  | zeroSliceStep
  | noItemAssignment (type : String)
  | noFieldAssignment (type name : String)
  | noField (type name : String) (hint : Option Bytes)
  | frozen (what : String)
  | busy (what : String)
  | notCallable (type : String)
  | notIterable (type : String)
  | notASequence (type : String)
  | tooManyValues (got : Int) (want : Nat)
  | tooFewValues (got want : Nat)
  | unassignedLocal (name : String)
  | unassignedGlobal (name : String)
  | notAMapping (type : String)
  | keywordNotText (type : String)
  | spreadNotIterable (type : String)
  | noKeywords (function : String)
  | argumentCount (function : String) (given : Nat) (want : String)
  | floatCount (given : Nat)
  | noArgument (function : String)
  | wantType (got want : String)
  | wantTextFor (got : String) (element : Nat)
  | floatType (got : String)
  | floatText (s : Bytes)
  | floatTooLarge
  | intText (base : Int) (s : Bytes)
  | intBase (type : String)
  | codePoints (n : Nat)
  | byteCount (n : Nat)
  | codePointBelowZero (n : Int)
  | codePointTooLarge (n : Int)
  | noLength (type : String)
  | notIterableAt (i : Nat) (type : String)
  | byteAt (i : Nat) (why : EvalError)
  | joinElement (type : String)
  | separatorType (type : String)
  | pairNotIterable (i : Nat) (type : String)
  | pairUnknownLength (i : Nat) (type : String)
  | pairLength (i : Nat) (length : Int)
  | duplicateKeyword (name : Bytes)
  | plain (text : String)
  | failed (text : Bytes)
  | loads
  | recursive (function : String)
  | aborted
  | endless

def EvalError.message : EvalError → String
  | call e => e.message
  | key e => e.message
  | format e => e.message
  | bind function e => "function " ++ function ++ " " ++ e.message
  | inCall callee why => callee ++ ": " ++ why.message
  | unknownBinary a op b => "unknown binary op: " ++ a ++ " " ++ op ++ " " ++ b
  | unknownUnary op a => "unknown unary op: " ++ op ++ " " ++ a
  | notComparable a op b => a ++ " " ++ op ++ " " ++ b ++ " not implemented"
  | floorDivisionByZero => "floored division by zero"
  | divisionByZero => "floating-point division by zero"
  | moduloByZero => "integer modulo by zero"
  | floatModuloByZero => "floating-point modulo by zero"
  | negativeShift n => "negative shift count: " ++ Decimal.ofInt n
  | largeShift n => "shift count too large: " ++ Decimal.ofInt n
  | repeatTooLarge n => "repeat count " ++ Decimal.ofInt n ++ " too large"
  | excessiveRepeat length n =>
    "excessive repeat (" ++ Decimal.ofNat length ++ " * " ++ Decimal.ofInt n ++ " elements)"
  | wantInt got => "got " ++ got ++ ", want int"
  | smallIntRange n => Decimal.ofInt n ++ " out of range"
  | byteRange n => Decimal.ofInt n ++ " out of range (want value in unsigned 8-bit range)"
  | tooLargeForFloat => "int too large to convert to float"
  | noInteger what => "cannot convert " ++ what
  | badNeedle container want got =>
    "'in " ++ container ++ "' requires " ++ want ++ " as left operand, not " ++ got
  | byteNeedle why => "int in bytes: " ++ why.message
  | missingKey k => "key " ++ k ++ " not in dict"
  | duplicateKey k => "duplicate key: " ++ k
  | badIndex type why => type ++ " index: " ++ why.message
  | indexOutOfRange type i length =>
    if length = 0 then "index " ++ Decimal.ofInt i ++ " out of range: empty " ++ type
    else type ++ " index " ++ Decimal.ofInt i ++ " out of range [" ++
      Decimal.ofInt (-length) ++ ":" ++ Decimal.ofInt (length - 1) ++ "]"
  | unhandledIndex type index => "unhandled index operation " ++ type ++ "[" ++ index ++ "]"
  | unhandledSlice type => "invalid slice operand " ++ type
  | badBound part why => "invalid " ++ part ++ ": " ++ why.message
  | zeroSliceStep => "zero is not a valid slice step"
  | noItemAssignment type => type ++ " value does not support item assignment"
  | noFieldAssignment type name => "can't assign to ." ++ name ++ " field of " ++ type
  | noField type name hint =>
    type ++ " has no ." ++ name ++ " field or method" ++
      (match hint with
      | some h => " (did you mean ." ++ h.toText ++ "?)"
      | .none => "")
  | frozen what => "cannot " ++ what
  | busy what => "cannot " ++ what ++ " during iteration"
  | notCallable type => "invalid call of non-function (" ++ type ++ ")"
  | notIterable type => type ++ " value is not iterable"
  | notASequence type => "got " ++ type ++ " in sequence assignment"
  | tooManyValues got want =>
    "too many values to unpack (got " ++ Decimal.ofInt got ++ ", want " ++ Decimal.ofNat want ++ ")"
  | tooFewValues got want =>
    "too few values to unpack (got " ++ Decimal.ofNat got ++ ", want " ++ Decimal.ofNat want ++ ")"
  | unassignedLocal name => "local variable " ++ name ++ " referenced before assignment"
  | unassignedGlobal name => "global variable " ++ name ++ " referenced before assignment"
  | notAMapping type => "argument after ** must be a mapping, not " ++ type
  | keywordNotText type => "keywords must be strings, not " ++ type
  | spreadNotIterable type => "argument after * must be iterable, not " ++ type
  | noKeywords function => function ++ " does not accept keyword arguments"
  | argumentCount function given want =>
    function ++ ": got " ++ Decimal.ofNat given ++ " arguments, want " ++ want
  | floatCount given => "float got " ++ Decimal.ofNat given ++ " arguments, wants 1"
  | noArgument function => function ++ " requires at least one positional argument"
  | wantType got want => "got " ++ got ++ ", want " ++ want
  | wantTextFor got element =>
    "want string, got " ++ got ++ ", for element " ++ Decimal.ofNat element
  | floatType got => "float got " ++ got ++ ", want number or string"
  | floatText s => "invalid float literal: " ++ s.toText
  | floatTooLarge => "floating-point number too large"
  | intText base s =>
    "int: invalid literal with base " ++ Decimal.ofInt base ++ ": " ++ s.toText
  | intBase type => "int: for base, got " ++ type ++ ", want int"
  | codePoints n =>
    "ord: string encodes " ++ Decimal.ofNat n ++ " Unicode code points, want 1"
  | byteCount n => "ord: bytes has length " ++ Decimal.ofNat n ++ ", want 1"
  | codePointBelowZero n => "chr: Unicode code point " ++ Decimal.ofInt n ++ " out of range (<0)"
  | codePointTooLarge n =>
    "chr: Unicode code point U+" ++ (hexPadded 0 n.toNat).toUpper ++ " out of range (>0x10FFFF)"
  | noLength type => "len: value of type " ++ type ++ " has no len"
  | notIterableAt i type => "argument #" ++ Decimal.ofNat i ++ " is not iterable: " ++ type
  | byteAt i why => "bytes: at index " ++ Decimal.ofNat i ++ ", " ++ why.message
  | joinElement type => "join: in list, want string, got " ++ type
  | separatorType type => "split: got " ++ type ++ " for separator, want string"
  | pairNotIterable i type =>
    "dictionary update sequence element #" ++ Decimal.ofNat i ++ " is not iterable (" ++ type ++ ")"
  | pairUnknownLength i type =>
    "dictionary update sequence element #" ++ Decimal.ofNat i ++ " has unknown length (" ++ type ++
      ")"
  | pairLength i length =>
    "dictionary update sequence element #" ++ Decimal.ofNat i ++ " has length " ++
      Decimal.ofInt length ++ ", want 2"
  | duplicateKeyword name => "duplicate keyword arg: " ++ Quoted.text name
  | plain text => text
  | failed text => "fail: " ++ text.toText
  | loads => "load not implemented by this application"
  | recursive function => "function " ++ function ++ " called recursively"
  | aborted => "evaluation was aborted"
  | endless => "evaluation does not end"

end TapeForge.Script
