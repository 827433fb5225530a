import ChatFlow.Expr.Token

/-!
Why an expression is refused before it is evaluated: its text, its structure, the members it
names, or the kinds of its parts.
-/
namespace ChatFlow.Expr

/-- Why the text is not a sequence of tokens. -/
inductive LexReason where
  | unterminatedString
  /-- A character that starts no token. -/
  | unknownSymbol (symbol : Char)
  /-- Digits that form neither an integer in range nor a decimal number. -/
  | malformedNumber (text : String)
  | unterminatedArguments
  /-- The mark of a member without a name after it. -/
  | missingReferenceName
  /-- A bare word that is no keyword, operator, literal or owner. -/
  | unexpectedIdentifier (word : String)
  | invalidEscape (escaped : Char)
deriving DecidableEq

def LexReason.message : LexReason → String
  | unterminatedString => "unterminated string literal"
  | unknownSymbol symbol => s!"unknown symbol '{symbol}'"
  | malformedNumber text => s!"malformed number '{text}'"
  | unterminatedArguments => "unterminated argument list"
  | missingReferenceName => "missing reference name"
  | unexpectedIdentifier word => s!"unexpected identifier '{word}'"
  | invalidEscape escaped => s!"unknown escape '\\" ++ s!"{escaped}'"

/-- A refused text: why, and the byte offset where. -/
structure LexError where
  reason : LexReason
  position : Nat
deriving DecidableEq

def LexError.message (e : LexError) : String := s!"{e.reason.message} at byte {e.position}"

/-- Why a sequence of tokens is not an expression, or an expression is not well typed. -/
inductive ParseReason where
  | lex (reason : LexReason)
  /-- The token cannot stand here. -/
  | undefinedToken
  /-- The expression ends where a term should follow. -/
  | unexpectedEnd
  | unclosedParenthesis
  /-- A keyword, or nothing, where an operand of a conditional should stand. -/
  | illegalIfArgument
  | missingDoStatement
  /-- Only a member can receive the left side of a chain. -/
  | illegalChainTarget
  /-- No visible member has the name and the number of arguments. -/
  | unknownReference (reference : String) (arity : Nat)
  | ambiguousReference (reference : String) (candidates : Nat)
  /-- The kind of an argument does not fit its parameter; a piped value has index 0. -/
  | argumentMismatch (reference : String) (index : Nat) (expected found : Kind)
  | typeMismatch (expected found : Kind)
deriving DecidableEq

def ParseReason.message : ParseReason → String
  | lex reason => reason.message
  | undefinedToken => "undefined token"
  | unexpectedEnd => "unexpected end of expression"
  | unclosedParenthesis => "unclosed parenthesis"
  | illegalIfArgument => "illegal argument for IF construction"
  | missingDoStatement => "IF construction missing DO statement"
  | illegalChainTarget => "chain target must be a reference or a generator"
  | unknownReference reference arity => s!"unknown reference '{reference}' with {arity} argument(s)"
  | ambiguousReference reference candidates =>
    s!"ambiguous reference '{reference}': {candidates} candidates"
  | argumentMismatch reference index expected found =>
    s!"argument {index} of '{reference}' expects {expected.name}, found {found.name}"
  | typeMismatch expected found =>
    s!"type mismatch: expected {expected.name}, found {found.name}"

/-- A refused expression: why, and the byte offset of the offending token. -/
structure ParseError where
  reason : ParseReason
  position : Nat
deriving DecidableEq

def ParseError.message (e : ParseError) : String := s!"{e.reason.message} at byte {e.position}"

/-- A text that cannot be split into tokens is no expression either. -/
def ParseError.ofLex (e : LexError) : ParseError := ⟨.lex e.reason, e.position⟩

end ChatFlow.Expr
