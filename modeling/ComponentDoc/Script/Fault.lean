namespace ComponentDoc.Script

inductive Cause where
  | unexpectedCharacter
  | unterminatedString
  | unterminatedTemplate
  | unterminatedComment
  | unterminatedRegex
  | badEscape
  | badNumber
  | legacyOctal
  | legacyComment
  | badRegexFlags
  | escapedKeyword
  | unexpectedToken
  | expressionExpected
  | identifierExpected
  | typeExpected
  | semicolonExpected
  | fromExpected
  | reservedWord
  | restrictedName
  | declarationNotAllowed
  | importOrExportNotAllowed
  | returnOutsideFunction
  | breakOutsideLoop
  | continueOutsideLoop
  | unknownLabel
  | duplicateLabel
  | labelledFunction
  | withStatement
  | lineBreakAfterThrow
  | tryWithoutHandler
  | repeatedDefaultCase
  | missingInitializer
  | initializerInLoopHead
  | emptyDeclaration
  | badLoopHead
  | invalidTarget
  | invalidPattern
  | restNotLast
  | commaAfterRest
  | defaultInObject
  | emptyParentheses
  | spreadInParentheses
  | arrowNotAllowed
  | lineBreakBeforeArrow
  | deleteOfName
  | unaryBeforePower
  | coalesceWithLogical
  | chainInConstructor
  | templateInChain
  | superNotAllowed
  | newTargetNotAllowed
  | awaitNotAllowed
  | yieldNotAllowed
  | accessorParameters
  | duplicateConstructor
  | badConstructor
  | badMemberName
  | badModifier
  | badParameter
  | badTypeList
  | badEnumMember
  | badDeclaration
  | nestingTooDeep
deriving DecidableEq, Repr, Inhabited

/-- The offset counts bytes from the start of the script. -/
structure Fault where
  cause : Cause
  offset : Nat
deriving DecidableEq, Repr, Inhabited

def Cause.message : Cause → String
  | .unexpectedCharacter => "Unexpected character"
  | .unterminatedString => "Unterminated string constant"
  | .unterminatedTemplate => "Unterminated template"
  | .unterminatedComment => "Unterminated block comment"
  | .unterminatedRegex => "Unterminated regular expression literal"
  | .badEscape => "Invalid escape sequence"
  | .badNumber => "Invalid number literal"
  | .legacyOctal => "Octal literals and escapes are not allowed"
  | .legacyComment => "Markup comments are not allowed in a script"
  | .badRegexFlags => "Invalid regular expression flags"
  | .escapedKeyword => "A keyword cannot be spelled with an escape"
  | .unexpectedToken => "Unexpected token"
  | .expressionExpected => "Expression expected"
  | .identifierExpected => "Identifier expected"
  | .typeExpected => "Type expected"
  | .semicolonExpected => "Semicolon expected"
  | .fromExpected => "A local name is expected here unless a source module is given"
  | .reservedWord => "A reserved word cannot be used as an identifier"
  | .restrictedName => "The names eval and arguments cannot be bound or assigned"
  | .declarationNotAllowed => "A declaration is not allowed here"
  | .importOrExportNotAllowed => "Import and export are allowed at the top level only"
  | .returnOutsideFunction => "Return is allowed in functions only"
  | .breakOutsideLoop => "Break is allowed in loops and switches only"
  | .continueOutsideLoop => "Continue is allowed in loops only"
  | .unknownLabel => "Unknown label"
  | .duplicateLabel => "Duplicate label"
  | .labelledFunction => "A function declaration cannot be labelled"
  | .withStatement => "The with statement is not allowed"
  | .lineBreakAfterThrow => "A line break cannot follow throw"
  | .tryWithoutHandler => "Catch or finally expected"
  | .repeatedDefaultCase => "A switch has at most one default case"
  | .missingInitializer => "An initializer is required"
  | .initializerInLoopHead => "An initializer is not allowed in this loop head"
  | .emptyDeclaration => "A declaration needs a name"
  | .badLoopHead => "Invalid loop head"
  | .invalidTarget => "Invalid assignment target"
  | .invalidPattern => "Not a pattern"
  | .restNotLast => "A rest element must be last"
  | .commaAfterRest => "A comma cannot follow a rest element"
  | .defaultInObject => "A default value is allowed in patterns only"
  | .emptyParentheses => "Parentheses cannot be empty"
  | .spreadInParentheses => "A spread element is not allowed in parentheses"
  | .arrowNotAllowed => "An arrow function is not allowed here"
  | .lineBreakBeforeArrow => "A line break cannot precede an arrow"
  | .deleteOfName => "Delete cannot be applied to a name"
  | .unaryBeforePower => "A unary operator cannot precede a power"
  | .coalesceWithLogical => "Coalescing cannot be mixed with logical operators"
  | .chainInConstructor => "An optional chain cannot be constructed"
  | .templateInChain => "A template cannot be tagged by an optional chain"
  | .superNotAllowed => "Super is not allowed here"
  | .newTargetNotAllowed => "The target of new is known in functions only"
  | .awaitNotAllowed => "Await is not allowed here"
  | .yieldNotAllowed => "Yield is not allowed here"
  | .accessorParameters => "Wrong number of accessor parameters"
  | .duplicateConstructor => "A class has at most one constructor"
  | .badConstructor => "A constructor must be a plain method"
  | .badMemberName => "This name is not allowed for a member"
  | .badModifier => "This modifier is not allowed here"
  | .badParameter => "Invalid parameter"
  | .badTypeList => "A type list cannot be empty"
  | .badEnumMember => "Invalid enum member"
  | .badDeclaration => "Invalid declaration"
  | .nestingTooDeep => "Nesting too deep"

end ComponentDoc.Script
