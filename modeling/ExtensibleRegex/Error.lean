import ExtensibleRegex.Text.Quoted

/-!
# What can go wrong

Every failure of the library is a cause (`Error`): what was found, with the piece of text that it
concerns. Its category and its wording are read off from the cause in one place, here, so a caller
can branch on the cause and print the message.
-/

namespace ExtensibleRegex

/-! ## 1. Categories -/

/-- The category of an error in a pattern, a flag text or a replacement template. -/
inductive SyntaxKind where
  | unknownFlag
  | duplicateFlag
  | reservedFlagInModifier
  | unterminatedToken
  | invalidEscape
  | invalidBackreference
  | duplicateCaptureName
  | reservedCaptureName
  | integerCaptureName
  | invalidUnicodeEscape
  | invalidOctalOrBackreference
  | invalidReplacementToken
  | unicodeProperty
  | native
  deriving DecidableEq, Repr

/-- A short description of a category. -/
def SyntaxKind.text : SyntaxKind → String
  | .unknownFlag => "unknown flag"
  | .duplicateFlag => "duplicate flag"
  | .reservedFlagInModifier => "reserved flag in mode modifier"
  | .unterminatedToken => "unterminated token"
  | .invalidEscape => "invalid escape"
  | .invalidBackreference => "invalid backreference"
  | .duplicateCaptureName => "duplicate capture name"
  | .reservedCaptureName => "reserved capture name"
  | .integerCaptureName => "integer capture name"
  | .invalidUnicodeEscape => "invalid unicode escape"
  | .invalidOctalOrBackreference => "invalid octal or backreference"
  | .invalidReplacementToken => "invalid replacement token"
  | .unicodeProperty => "invalid unicode property"
  | .native => "rejected by native engine"

/-- The broad class of an error. -/
inductive ErrorClass where
  /-- A pattern, a flag text or a template is malformed. -/
  | malformed (kind : SyntaxKind)
  /-- An argument has the wrong shape. -/
  | argument
  /-- A name or number refers to nothing. -/
  | reference
  /-- A flag is not a single flag character. -/
  | flag
  /-- Property data lacks a part. -/
  | unicodeData
  /-- A delimiter has no partner. -/
  | unbalanced
  /-- A handler broke a rule of the library. -/
  | internal
  /-- There is no answer, for the handlers never come to an end. -/
  | endless
  deriving DecidableEq, Repr

/-! ## 2. Causes -/

/-- What is wrong with a property escape. `token` is the escape as written. -/
inductive PropertyFault where
  | doubleNegation (token : Text)
  | unknown (token : Text)
  | missingTarget (token target : Text)
  | insideClass
  | needsAstral (token : Text)
  deriving DecidableEq, Repr

/-- The causes of failure. -/
inductive Error where
  | unknownFlag (flag : Char)
  | duplicateFlag (flags : Text)
  /-- A mode modifier sets `g` or `y`. -/
  | reservedFlag (modifier : Text)
  | unterminatedComment (rest : Text)
  | invalidEscape (token : Text)
  /-- A reference, in a pattern or a template, to a group that there is not. -/
  | undefinedGroup (reference : Text)
  | duplicateName (token : Text)
  | reservedName (token : Text)
  | integerName (token : Text)
  /-- A code point escape past the last code point. -/
  | codePointTooLarge (token : Text)
  /-- A code point escape above the basic plane without flag `u`. -/
  | codePointNeedsUnicode
  | octalOrUndefinedGroup (token : Text)
  | replacementToken (letter : Char)
  | property (fault : PropertyFault)
  /-- The engine does not accept the pattern. -/
  | rejected
  /-- An error that a token's handler reports itself. -/
  | reported (kind : SyntaxKind) (message : Text)
  | nothingToMerge
  | emptyChain
  | undefinedSubpattern (name : Text)
  | undefinedChainGroup (reference : Text)
  | invalidFlag (flag : Text)
  | namelessProperty
  | propertyWithoutData (name : Text)
  | unbalanced
  /-- Reparsing at one place of a pattern does not come to an end. -/
  | unsettled (offset : Nat)
  | internal (message : Text)
  /-- Not an error that is ever answered: it stands for an expansion that goes on for ever. -/
  | endless
  deriving DecidableEq, Repr

namespace Error

/-- The class of a cause. -/
def errorClass : Error → ErrorClass
  | unknownFlag _ => .malformed .unknownFlag
  | duplicateFlag _ => .malformed .duplicateFlag
  | reservedFlag _ => .malformed .reservedFlagInModifier
  | unterminatedComment _ => .malformed .unterminatedToken
  | invalidEscape _ => .malformed .invalidEscape
  | undefinedGroup _ => .malformed .invalidBackreference
  | duplicateName _ => .malformed .duplicateCaptureName
  | reservedName _ => .malformed .reservedCaptureName
  | integerName _ => .malformed .integerCaptureName
  | codePointTooLarge _ => .malformed .invalidUnicodeEscape
  | codePointNeedsUnicode => .malformed .invalidUnicodeEscape
  | octalOrUndefinedGroup _ => .malformed .invalidOctalOrBackreference
  | replacementToken _ => .malformed .invalidReplacementToken
  | property _ => .malformed .unicodeProperty
  | rejected => .malformed .native
  | reported kind _ => .malformed kind
  | nothingToMerge => .argument
  | emptyChain => .argument
  | undefinedSubpattern _ => .reference
  | undefinedChainGroup _ => .reference
  | invalidFlag _ => .flag
  | namelessProperty => .unicodeData
  | propertyWithoutData _ => .unicodeData
  | unbalanced => .unbalanced
  | unsettled _ => .internal
  | internal _ => .internal
  | endless => .endless

/-! ## 3. Wording -/

/-- The wording of a property fault. -/
def propertyDetail : PropertyFault → Text
  | .doubleNegation token => "Invalid double negation ".toList ++ token
  | .unknown token => "Unknown Unicode token ".toList ++ token
  | .missingTarget token target =>
    "Unicode token missing data ".toList ++ token ++ " -> ".toList ++ target
  | .insideClass =>
    "Astral mode does not support Unicode tokens within character classes".toList
  | .needsAstral token => "Astral mode required for Unicode token ".toList ++ token

/-- The wording of a cause, without its class. -/
def detail : Error → Text
  | unknownFlag flag => "Unknown regex flag ".toList ++ [flag]
  | duplicateFlag flags => "Invalid duplicate regex flag ".toList ++ flags
  | reservedFlag modifier => "Cannot use flag g or y in mode modifier ".toList ++ modifier
  | unterminatedComment rest => "Unterminated comment ".toList ++ rest
  | invalidEscape token => "Invalid escape ".toList ++ token
  | undefinedGroup reference => "Backreference to undefined group ".toList ++ reference
  | duplicateName token => "Cannot use same name for multiple groups ".toList ++ token
  | reservedName token => "Cannot use reserved word as capture name ".toList ++ token
  | integerName token => "Cannot use integer as capture name ".toList ++ token
  | codePointTooLarge token => "Invalid Unicode code point ".toList ++ token
  | codePointNeedsUnicode =>
    "Cannot use Unicode code point above \\u\x7bFFFF\x7d without flag u".toList
  | octalOrUndefinedGroup token =>
    "Cannot use octal escape or backreference to undefined group ".toList ++ token
  | replacementToken letter => "Invalid token $".toList ++ [letter]
  | property fault => propertyDetail fault
  | rejected => "Invalid native pattern".toList
  | reported _ message => message
  | nothingToMerge => "Must provide a nonempty array of patterns to merge".toList
  | emptyChain => "Must provide a nonempty chain of regexes".toList
  | undefinedSubpattern name =>
    "Undefined property ".toList ++ ['{', '{'] ++ name ++ ['}', '}']
  | undefinedChainGroup reference => "Backreference to undefined group: ".toList ++ reference
  | invalidFlag flag => "flag must be a single character A-Za-z0-9_$, got ".toList ++ quote flag
  | namelessProperty => "Unicode token requires name".toList
  | propertyWithoutData name => "Unicode token has no character data ".toList ++ name
  | unbalanced => "unbalanced delimiter found in string".toList
  | unsettled offset => "token reparse did not settle at offset ".toList ++ decimalText offset
  | internal message => message
  | endless => []

/-- What a message of a class opens with. -/
def opening : ErrorClass → String
  | .malformed _ => "syntax error: "
  | .argument => "type error: "
  | .reference => "reference error: "
  | .flag => ""
  | .unicodeData => "invalid unicode data: "
  | .unbalanced => ""
  | .internal => "internal error: "
  | .endless => ""

/-- The message of an error. -/
def message (e : Error) : Text := (opening e.errorClass).toList ++ e.detail

end Error

end ExtensibleRegex
