/-
The productions of the grammar. Types, blocks, expressions and the operands of prefix operators
nest in each other; each production is given the ones of the next level down, and below the last
level every one of them stops with a fault. So the depth of the recursion is the depth of the
nesting, and a cap on it bounds both.
-/
import LetLint.Parse.Lookahead
import LetLint.Parse.Stream

namespace LetLint.Parse

/-- The productions that open a level of nesting, for nodes of any builder. -/
structure NestedIn (σ ν : Type) where
  type : Reading σ ν
  block : Reading σ ν
  expression : Reading σ ν
  operand : Reading σ ν

/-- The productions that open a level of nesting. -/
abbrev Nested := NestedIn TokenStream Tree

variable {σ ν : Type} [Builder σ ν]

/-! ## Types and parameters -/

/-- A list of type arguments between angles. -/
def typeArgumentList (inner : NestedIn σ ν) : Reading σ ν := do
  let start ← offset
  advance
  let arguments ← commaSeparated inner.type
  expect .typeArgumentsClose
  close .typeArgumentList start arguments

/-- A dotted name, with or without type arguments. -/
def typeBody (inner : NestedIn σ ν) : Reading σ ν := do
  let start ← offset
  let first ← name .typeName
  let more ← many do
    if ← accept .dot then
      return some (← name .typeSegment)
    else
      return none
  if ← isAt .less then
    close .qualifiedType start (first :: more ++ [← typeArgumentList inner])
  else
    close .qualifiedType start (first :: more)

/-- A name with its type. -/
def typedParameter (inner : NestedIn σ ν) : Reading σ ν := do
  let start ← offset
  let type ← inner.type
  let parameter ← name .parameterName
  close .parameter start [type, parameter]

/-- A name, with its type unless the list of parameters goes on or is over right behind it. -/
def lambdaParameter (inner : NestedIn σ ν) : Reading σ ν := do
  if Lookahead.startsUntypedParameter (← stream).ahead then
    let start ← offset
    let parameter ← name .parameterName
    close .parameter start [parameter]
  else
    typedParameter inner

/-! ## Lambdas -/

/-- A block or an expression. -/
def lambdaBody (inner : NestedIn σ ν) : Reading σ ν := do
  if ← isAt .leftBrace then inner.block else inner.expression

/-- A lambda with one parameter and no parentheses. -/
def bareLambda (inner : NestedIn σ ν) : Reading σ ν := do
  let start ← offset
  let parameter ← lambdaParameter inner
  expect .bareLambdaArrow
  let body ← lambdaBody inner
  close .simpleLambda start [parameter, body]

/-- A lambda with its parameters in parentheses. -/
def parenthesizedLambda (inner : NestedIn σ ν) : Reading σ ν := do
  let start ← offset
  expect .lambdaOpen
  let parameters ← commaSeparatedBefore .rightParen (lambdaParameter inner)
  expect .lambdaClose
  let list ← close .parameterList start parameters
  expect .lambdaArrow
  let body ← lambdaBody inner
  close .parenthesizedLambda start [list, body]

/-! ## Expressions -/

/-- An argument of a call. -/
def argument (inner : NestedIn σ ν) : Reading σ ν := do
  let start ← offset
  let value ← inner.expression
  close .argument start [value]

/-- The arguments of a call between parentheses. -/
def argumentList (inner : NestedIn σ ν) : Reading σ ν := do
  let start ← offset
  expect .argumentsOpen
  let arguments ← commaSeparatedBefore .rightParen (argument inner)
  expect .argumentsClose
  close .argumentList start arguments

/-- An expression between parentheses. -/
def group (inner : NestedIn σ ν) : Reading σ ν := do
  let start ← offset
  advance
  let value ← inner.expression
  expect .groupClose
  close .parenthesized start [value]

/-- A literal, a name, or an expression between parentheses. -/
def primary (inner : NestedIn σ ν) : Reading σ ν := do
  match (← stream).current? with
  | some (.number _) => leaf .number
  | some (.string _) => leaf .string
  | some (.keyword .trueWord) => leaf .trueWord
  | some (.keyword .falseWord) => leaf .falseWord
  | some (.keyword .nullWord) => leaf .nullWord
  | some (.identifier name) => leaf (.identifier name)
  | some (.punct .leftParen) => group inner
  | _ => fail .missingExpression

/-- One call or member access more behind an expression. -/
def trailer? (inner : NestedIn σ ν) (value : ν) : Reading σ (Option ν) := do
  if ← isAt .leftParen then
    let arguments ← argumentList inner
    return some (← closeFrom .invocation value [value, arguments])
  else if ← accept .dot then
    let member ← name .memberName
    return some (← closeFrom .memberAccess value [value, member])
  else
    return none

/-- A primary expression with calls and member accesses behind it. -/
def call (inner : NestedIn σ ν) : Reading σ ν := do
  grow (trailer? inner) (← primary inner)

/-- A prefix operator with its operand, or a call. -/
def unary (inner : NestedIn σ ν) : Reading σ ν := do
  let start ← offset
  if ← acceptAny [.bang, .minus] then
    let operand ← inner.operand
    close .unary start [operand]
  else
    call inner

/-- One operator and operand more behind an expression. -/
def operation? (operators : List Punct) (operand : Reading σ ν) (left : ν) :
    Reading σ (Option ν) := do
  if ← acceptAny operators then
    let right ← operand
    return some (← closeFrom .binary left [left, right])
  else
    return none

/-- Operands with operators of one level between them, grouped to the left. -/
def binaryLevel (operators : List Punct) (operand : Reading σ ν) : Reading σ ν := do
  grow (operation? operators operand) (← operand)

/-- The binary operators, level by level, the weakest first. -/
def binaryOperators : List (List Punct) :=
  [[.barBar],
   [.ampAmp],
   [.equalEqual, .notEqual],
   [.less, .lessEqual, .greater, .greaterEqual],
   [.plus, .minus],
   [.star, .slash, .percent]]

/-- An expression that is no lambda. -/
def binary (inner : NestedIn σ ν) : Reading σ ν :=
  binaryOperators.foldr binaryLevel (unary inner)

/-- An expression. -/
def expressionBody (inner : NestedIn σ ν) : Reading σ ν := do
  let s ← stream
  if Lookahead.startsBareLambda s.ahead then bareLambda inner
  else if Lookahead.startsParenthesizedLambda s.ahead then parenthesizedLambda inner
  else binary inner

/-! ## Statements -/

/-- `var name = value;` -/
def localDeclaration (inner : NestedIn σ ν) : Reading σ ν := do
  let start ← offset
  advance
  let declared ← name .localName
  expect .localEqual
  let value ← inner.expression
  expect .localEnd
  close .localDeclaration start [declared, value]

/-- `return;` or `return value;` -/
def returnStatement (inner : NestedIn σ ν) : Reading σ ν := do
  let start ← offset
  advance
  let value ← if ← isAt .semicolon then pure [] else pure [← inner.expression]
  expect .returnEnd
  close .returnStatement start value

/-- `value;` -/
def expressionStatement (inner : NestedIn σ ν) : Reading σ ν := do
  let start ← offset
  let value ← inner.expression
  expect .statementEnd
  close .expressionStatement start [value]

/-- A statement; its first token decides which. -/
def statement (inner : NestedIn σ ν) : Reading σ ν := do
  match (← stream).current? with
  | some (.keyword .varWord) => localDeclaration inner
  | some (.keyword .returnWord) => returnStatement inner
  | some (.punct .leftBrace) => inner.block
  | _ => expressionStatement inner

/-- A statement of a block, unless the block or the input is over. -/
def blockItem? (inner : NestedIn σ ν) : Reading σ (Option ν) := do
  let s ← stream
  if s.isAt .rightBrace || s.ahead.isEmpty then
    return none
  else
    return some (← statement inner)

/-- Statements between braces. -/
def blockBody (inner : NestedIn σ ν) : Reading σ ν := do
  let start ← offset
  expect .blockOpen
  let statements ← many (blockItem? inner)
  expect .blockClose
  close .block start statements

/-! ## Levels -/

/-- The productions with `levels` levels of nesting left of `cap`, for nodes of any builder. -/
def nestedIn (cap : Nat) : Nat → NestedIn σ ν
  | 0 =>
    { type := fail (.tooDeep cap)
      block := fail (.tooDeep cap)
      expression := fail (.tooDeep cap)
      operand := fail (.tooDeep cap) }
  | levels + 1 =>
    let inner := nestedIn cap levels
    { type := typeBody inner
      block := blockBody inner
      expression := expressionBody inner
      operand := unary inner }

/-- The productions with `levels` levels of nesting left of `cap`. -/
abbrev nested (cap levels : Nat) : Nested := nestedIn cap levels

/-! ## Items -/

/-- `Type Name(Type parameter, …);` -/
def methodDeclaration (inner : NestedIn σ ν) : Reading σ ν := do
  let start ← offset
  let type ← inner.type
  let declared ← name .methodName
  let listStart ← offset
  expect .methodOpen
  let parameters ← commaSeparatedBefore .rightParen (typedParameter inner)
  expect .methodClose
  let list ← close .parameterList listStart parameters
  expect .methodEnd
  close .method start [type, declared, list]

/-- A method declaration or a statement. -/
def item (cap : Nat) : Reading σ ν := do
  let inner := nestedIn cap cap
  if Lookahead.startsMethod cap (← stream).ahead then methodDeclaration inner else statement inner

end LetLint.Parse
