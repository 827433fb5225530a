import ChatFlow.Value

/-!
Tokens of the inline expression language. Every token carries the byte offset of its first
character; the arguments of a reference are tokens themselves.
-/
namespace ChatFlow.Expr

/-- Binary operators. -/
inductive Operator where
  /-- Evaluates both sides and keeps the right result. -/
  | sequence
  | or
  | and
  | greater
  | greaterOrEqual
  | less
  | lessOrEqual
  | equals
  | notEquals
  /-- Pipes the left result into the reference on the right. -/
  | chain
deriving DecidableEq, Inhabited

/-- Binding strength, always positive. -/
def Operator.precedence : Operator → Nat
  | sequence => 1
  | or => 4
  | and => 5
  | greater | greaterOrEqual | less | lessOrEqual => 6
  | equals | notEquals => 7
  | chain => 11

/-- Spelling in source text. -/
def Operator.symbol : Operator → String
  | sequence => ";"
  | or => "OR"
  | and => "AND"
  | greater => ">"
  | greaterOrEqual => ">="
  | less => "<"
  | lessOrEqual => "<="
  | equals => "=="
  | notEquals => "!="
  | chain => "->"

/-- Reserved words of the conditional. -/
inductive Keyword where
  | ifWord
  | doWord
  | elseWord
deriving DecidableEq

def Keyword.word : Keyword → String
  | ifWord => "IF"
  | doWord => "DO"
  | elseWord => "ELSE"

/-- The two ways to write the use of a member. -/
inductive CallForm where
  /-- Written with a hash sign. -/
  | reference
  /-- Written with two colons; takes its input through a chain. -/
  | generator
deriving DecidableEq, Inhabited

/-- The mark between owner and name. -/
def CallForm.mark : CallForm → String
  | reference => "#"
  | generator => "::"

/-- Name of a member as it is written. -/
def CallForm.spell (form : CallForm) (owner : Option String) (name : String) : String :=
  owner.getD "" ++ form.mark ++ name

mutual

/-- What a token is. -/
inductive TokenKind where
  | literal (value : Value)
  /-- Use of a member; `args` is absent when no parentheses are written. -/
  | call (form : CallForm) (owner : Option String) (name : String) (args : Option (List Token))
  | operator (op : Operator)
  | opening
  | closing
  | keyword (word : Keyword)

/-- A token and the byte offset where it starts. -/
inductive Token where
  | mk (kind : TokenKind) (position : Nat)

end

instance : Inhabited Token := ⟨.mk .opening 0⟩

def Token.kind : Token → TokenKind
  | mk kind _ => kind

def Token.position : Token → Nat
  | mk _ position => position

end ChatFlow.Expr
