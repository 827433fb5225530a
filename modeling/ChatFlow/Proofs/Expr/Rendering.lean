import ChatFlow.Expr.Gather

/-! Texts that spell tokens, with every choice of blanks and letter case that they leave open. A token
carries the byte offset at which its text starts. -/
namespace ChatFlow.Expr

def IsBlanks (cs : List Char) : Prop := ∀ c ∈ cs, Text.isBlank c = true

/-- Names of members: letters, digits and underscores. -/
def IsName (name : String) : Prop :=
  name.toList ≠ [] ∧ ∀ c ∈ name.toList, Lexeme.isNameChar c = true

/-- Names of owners start with a letter or an underscore and may have dots inside. -/
def IsOwner (owner : String) : Prop :=
  ∃ c cs, owner.toList = c :: cs ∧ Lexeme.isWordStart c = true ∧
    ∀ c ∈ cs, Lexeme.isWordChar c = true

/-- Content of a string literal in double quotes. -/
def escape : List Char → List Char
  | [] => []
  | c :: cs => if c = '"' ∨ c = '\\' then '\\' :: c :: escape cs else c :: escape cs

/-- How a literal is written: integers in decimal, texts in double quotes. Floats and lists are not
written this way. -/
def literalText? : Value → Option (List Char)
  | .null => some "null".toList
  | .bool true => some "true".toList
  | .bool false => some "false".toList
  | .int n => some (toString n.toInt).toList
  | .str s => some ('"' :: (escape s.toList ++ ['"']))
  | .float _ | .list _ => none

mutual

/-- Texts that spell a token that may be an argument, from an offset on. -/
inductive Spells : Nat → Token → List Char → Prop where
  | literal {pos : Nat} {v : Value} {cs : List Char} (hv : literalText? v = some cs) :
    Spells pos (.mk (.literal v) pos) cs
  | member {pos : Nat} {form : CallForm} {owner : Option String} {name : String}
    (howner : ∀ o, owner = some o → IsOwner o) (hname : IsName name) :
    Spells pos (.mk (.call form owner name none) pos) (form.spell owner name).toList
  | call {pos : Nat} {form : CallForm} {owner : Option String} {name : String} {args : List Token}
    {cs : List Char} (howner : ∀ o, owner = some o → IsOwner o) (hname : IsName name)
    (hargs : SpellsAll (pos + Text.byteLength (form.spell owner name).toList + 1) args cs) :
    Spells pos (.mk (.call form owner name (some args)) pos)
      ((form.spell owner name).toList ++ '(' :: (cs ++ [')']))

/-- Texts that spell arguments, with blanks around each one and commas between them. -/
inductive SpellsAll : Nat → List Token → List Char → Prop where
  | nil {pos : Nat} {blanks : List Char} (hblanks : IsBlanks blanks) : SpellsAll pos [] blanks
  | last {pos : Nat} {t : Token} {before cs after : List Char} (hbefore : IsBlanks before)
    (ht : Spells (pos + Text.byteLength before) t cs) (hafter : IsBlanks after) :
    SpellsAll pos [t] (before ++ (cs ++ after))
  | cons {pos : Nat} {t t' : Token} {ts : List Token} {before cs after rest : List Char}
    (hbefore : IsBlanks before) (ht : Spells (pos + Text.byteLength before) t cs)
    (hafter : IsBlanks after)
    (hts : SpellsAll (pos + Text.byteLength (before ++ (cs ++ after)) + 1) (t' :: ts) rest) :
    SpellsAll pos (t :: t' :: ts) (before ++ (cs ++ (after ++ ',' :: rest)))

end

/-- Texts that spell any token, from an offset on. -/
inductive Shows (pos : Nat) : Token → List Char → Prop where
  | argument {t : Token} {cs : List Char} (ht : Spells pos t cs) : Shows pos t cs
  | operator {op : Operator} {cs : List Char} (hcs : cs.map Char.toUpper = op.symbol.toList) :
    Shows pos (.mk (.operator op) pos) cs
  | keyword {word : Keyword} {cs : List Char} (hcs : cs.map Char.toUpper = word.word.toList) :
    Shows pos (.mk (.keyword word) pos) cs
  | opening : Shows pos (.mk .opening pos) ['(']
  | closing : Shows pos (.mk .closing pos) [')']

/-- Texts that spell tokens, with blanks between them. -/
inductive Renders : Nat → List Token → List Char → Prop where
  | nil {pos : Nat} {blanks : List Char} (hblanks : IsBlanks blanks) : Renders pos [] blanks
  | cons {pos : Nat} {t : Token} {ts : List Token} {before cs rest : List Char}
    (hbefore : IsBlanks before) (ht : Shows (pos + Text.byteLength before) t cs)
    (hts : Renders (pos + Text.byteLength (before ++ cs)) ts rest)
    (hrest : ∀ c ∈ rest.head?, Text.isBlank c = true) :
    Renders pos (t :: ts) (before ++ (cs ++ rest))

end ChatFlow.Expr
