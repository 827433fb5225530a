import ChatFlow.Expr.Ast
import ChatFlow.Expr.Gather

/-!
From tokens to expressions, one token at a time. What is still open is a list of frames, the
innermost first. Operators bind by precedence and to the left; an operand of a conditional takes
every operator that follows it, and `ELSE` belongs to the innermost conditional that can have one.
-/
namespace ChatFlow.Expr

/-- A construct of which the next operand is the missing part. -/
inductive Frame where
  /-- Right operand of a binary operator. -/
  | right (op : Operator) (left : Ast) (position : Nat)
  /-- Content of parentheses, opened at the position. -/
  | group (position : Nat)
  /-- Guard of a conditional, after the branches read earlier. -/
  | guard (earlier : List (Ast × Ast)) (position : Nat)
  /-- Body of a branch whose guard is known. -/
  | body (earlier : List (Ast × Ast)) (guard : Ast) (position : Nat)
  /-- Last body of a conditional. -/
  | otherwise (branches : List (Ast × Ast)) (position : Nat)

/-- Whether the frame waits for an operand of a conditional. -/
def Frame.isConditional : Frame → Bool
  | guard .. | body .. | otherwise .. => true
  | _ => false

/-- The open frames and the operand just read; without one, a term must follow. -/
structure Parsing where
  frames : List Frame
  operand : Option Ast

namespace Parsing

def start : Parsing := ⟨[], none⟩

/-- Finishes the pending operators that bind at least as tightly as a precedence. -/
def reduce (precedence : Nat) : List Frame → Ast → List Frame × Ast
  | .right op left position :: frames, x =>
    if precedence ≤ op.precedence then reduce precedence frames (.operation op left x position)
    else (.right op left position :: frames, x)
  | frames, x => (frames, x)

/-- Why the token cannot start a term: a keyword is no operand of a conditional. -/
def misplaced (frames : List Frame) (t : Token) : ParseError :=
  match t.kind with
  | .keyword _ =>
    if frames.head?.any Frame.isConditional then ⟨.illegalIfArgument, t.position⟩
    else ⟨.undefinedToken, t.position⟩
  | _ => ⟨.undefinedToken, t.position⟩

/-- A token where a term must start. An `IF` right after `ELSE` continues its conditional. -/
def term (frames : List Frame) (t : Token) : Except ParseError Parsing :=
  match t.kind with
  | .literal _ | .call .. => .ok ⟨frames, some (.ofArgument t)⟩
  | .opening => .ok ⟨.group t.position :: frames, none⟩
  | .keyword .ifWord =>
    match frames with
    | .otherwise branches position :: frames => .ok ⟨.guard branches position :: frames, none⟩
    | _ => .ok ⟨.guard [] t.position :: frames, none⟩
  | _ => .error (misplaced frames t)

/-- A token after a finished operand that continues no operation: it ends the operand, and with it
every frame that it does not belong to. -/
def close (t : Token) : List Frame → Ast → Except ParseError Parsing
  | [], _ => .error ⟨.undefinedToken, t.position⟩
  | .right op left position :: frames, x => close t frames (.operation op left x position)
  | .group position :: frames, x =>
    match t.kind with
    | .closing => .ok ⟨frames, some x⟩
    | _ => .error ⟨.unclosedParenthesis, position⟩
  | .guard earlier position :: frames, x =>
    match t.kind with
    | .keyword .doWord => .ok ⟨.body earlier x position :: frames, none⟩
    | _ => .error ⟨.missingDoStatement, t.position⟩
  | .body earlier guard position :: frames, x =>
    match t.kind with
    | .keyword .elseWord => .ok ⟨.otherwise (earlier ++ [(guard, x)]) position :: frames, none⟩
    | _ => close t frames (.conditional (earlier ++ [(guard, x)]) none position)
  | .otherwise branches position :: frames, x =>
    close t frames (.conditional branches (some x) position)

def step (p : Parsing) (t : Token) : Except ParseError Parsing :=
  match p.operand with
  | none => term p.frames t
  | some x =>
    match t.kind with
    | .operator op =>
      let (frames, left) := reduce op.precedence p.frames x
      .ok ⟨.right op left t.position :: frames, none⟩
    | _ => close t p.frames x

/-- The whole expression, after the last token. -/
def closeAll (finish : Nat) : List Frame → Ast → Except ParseError Ast
  | [], x => .ok x
  | .right op left position :: frames, x => closeAll finish frames (.operation op left x position)
  | .group position :: _, _ => .error ⟨.unclosedParenthesis, position⟩
  | .guard .. :: _, _ => .error ⟨.missingDoStatement, finish⟩
  | .body earlier guard position :: frames, x =>
    closeAll finish frames (.conditional (earlier ++ [(guard, x)]) none position)
  | .otherwise branches position :: frames, x =>
    closeAll finish frames (.conditional branches (some x) position)

/-- What has been read, if the tokens end here. -/
def result (p : Parsing) (finish : Nat) : Except ParseError Ast :=
  match p.operand with
  | some x => closeAll finish p.frames x
  | none =>
    if p.frames.head?.any Frame.isConditional then .error ⟨.illegalIfArgument, finish⟩
    else .error ⟨.unexpectedEnd, finish⟩

end Parsing

/-- The expression that the tokens make up. Errors after the last token are reported at `finish`. -/
def parse (tokens : List Token) (finish : Nat) : Except ParseError Ast := do
  (← tokens.foldlM Parsing.step .start).result finish

/-- Reads an expression from its text. -/
def parseText (text : String) : Except ParseError Ast :=
  match tokenize text with
  | .ok tokens => parse tokens text.utf8ByteSize
  | .error e => .error (.ofLex e)

end ChatFlow.Expr
