/-
The kinds of nodes of a syntax tree, and the names under which they are listed.
-/

namespace LetLint

/-- The kind of a node. -/
inductive Kind where
  | unit
  | method
  | parameterList
  | parameter
  | localDeclaration
  | qualifiedType
  | typeArgumentList
  | expressionStatement
  | returnStatement
  | block
  | invocation
  | argumentList
  | argument
  | memberAccess
  | identifier
  | simpleLambda
  | parenthesizedLambda
  | parenthesized
  | binary
  | unary
  | numericLiteral
  | stringLiteral
  | trueLiteral
  | falseLiteral
  | nullLiteral
  deriving Repr, DecidableEq, Inhabited

namespace Kind

/-- The listed name of a kind. -/
def label : Kind → String
  | .unit => "CompilationUnit"
  | .method => "MethodDeclaration"
  | .parameterList => "ParameterList"
  | .parameter => "Parameter"
  | .localDeclaration => "LocalDeclaration"
  | .qualifiedType => "QualifiedType"
  | .typeArgumentList => "TypeArgumentList"
  | .expressionStatement => "ExpressionStatement"
  | .returnStatement => "ReturnStatement"
  | .block => "Block"
  | .invocation => "InvocationExpression"
  | .argumentList => "ArgumentList"
  | .argument => "Argument"
  | .memberAccess => "SimpleMemberAccessExpression"
  | .identifier => "IdentifierName"
  | .simpleLambda => "SimpleLambdaExpression"
  | .parenthesizedLambda => "ParenthesizedLambdaExpression"
  | .parenthesized => "ParenthesizedExpression"
  | .binary => "BinaryExpression"
  | .unary => "PrefixUnaryExpression"
  | .numericLiteral => "NumericLiteralExpression"
  | .stringLiteral => "StringLiteralExpression"
  | .trueLiteral => "TrueLiteralExpression"
  | .falseLiteral => "FalseLiteralExpression"
  | .nullLiteral => "NullLiteralExpression"

/-- All kinds. -/
def all : List Kind :=
  [.unit, .method, .parameterList, .parameter, .localDeclaration, .qualifiedType,
   .typeArgumentList, .expressionStatement, .returnStatement, .block, .invocation, .argumentList,
   .argument, .memberAccess, .identifier, .simpleLambda, .parenthesizedLambda, .parenthesized,
   .binary, .unary, .numericLiteral, .stringLiteral, .trueLiteral, .falseLiteral, .nullLiteral]

/-- The kind with a listed name. -/
def ofLabel? (label : String) : Option Kind := all.find? (·.label == label)

/-- A lambda, with or without parentheses around its parameters. -/
def isLambda : Kind → Bool
  | .simpleLambda | .parenthesizedLambda => true
  | _ => false

/-- A node whose local declarations are in force for the statements behind them. -/
def isScope : Kind → Bool
  | .block | .unit => true
  | _ => false

end Kind

end LetLint
