/-
# Kinds and roles of syntax nodes

The syntax tree keeps a kind of its own for what name resolution and search look at; everything
else has the kind `other`, so that a traversal still reaches the nodes below it.  A role says what
a node is to its parent.
-/

namespace CodeAtlas.Source

/-- Kind of a literal. -/
inductive LiteralKind where
  | int
  | long
  | float
  | double
  | char
  | string
  | boolean
  | null
deriving DecidableEq, Repr

/-- The name of a literal kind. -/
def LiteralKind.text : LiteralKind → String
  | int => "Int"
  | long => "Long"
  | float => "Float"
  | double => "Double"
  | char => "Char"
  | string => "String"
  | boolean => "Boolean"
  | null => "Null"

/-- Kind of a syntax node. -/
inductive Kind where
  | compilationUnit
  | packageDeclaration
  | importDeclaration
  | classDeclaration
  | interfaceDeclaration
  | enumDeclaration
  | recordDeclaration
  | annotationDeclaration
  | methodDeclaration
  | constructorDeclaration
  | fieldDeclaration
  | enumConstant
  | localVariableDeclaration
  | variableDeclarator
  | formalParameter
  | typeParameter
  | modifiers
  | simpleType
  | qualifiedType
  | arrayType
  | primitiveType
  | parameterizedType
  | methodInvocation
  /-- A call of another constructor of the class or of its superclass. -/
  | constructorInvocation
  | objectCreation
  | name
  | qualifiedName
  | fieldAccess
  | this
  | super
  | literal (kind : LiteralKind)
  | cast
  | parenthesized
  | block
  | lambda
  | catchClause
  | for
  | enhancedFor
  | other
deriving DecidableEq, Repr

namespace Kind

/-- Declarations of classes, interfaces, enums, records and annotation types. -/
def isTypeDeclaration : Kind → Bool
  | classDeclaration | interfaceDeclaration | enumDeclaration | recordDeclaration
  | annotationDeclaration => true
  | _ => false

/-- Declarations of methods and constructors. -/
def isMethodDeclaration : Kind → Bool
  | methodDeclaration | constructorDeclaration => true
  | _ => false

/-- Kinds that denote a type: `Foo`, `a.b.Foo`, `int`, `Foo[]`, `Foo<Bar>`. -/
def isType : Kind → Bool
  | simpleType | qualifiedType | arrayType | primitiveType | parameterizedType => true
  | _ => false

/-- Nodes that open a scope for local variables. -/
def opensScope : Kind → Bool
  | block | lambda | catchClause | .for | enhancedFor | methodDeclaration
  | constructorDeclaration => true
  | _ => false

/-- The name of a kind; all literals share one. -/
def text : Kind → String
  | compilationUnit => "CompilationUnit"
  | packageDeclaration => "PackageDeclaration"
  | importDeclaration => "ImportDeclaration"
  | classDeclaration => "ClassDeclaration"
  | interfaceDeclaration => "InterfaceDeclaration"
  | enumDeclaration => "EnumDeclaration"
  | recordDeclaration => "RecordDeclaration"
  | annotationDeclaration => "AnnotationDeclaration"
  | methodDeclaration => "MethodDeclaration"
  | constructorDeclaration => "ConstructorDeclaration"
  | fieldDeclaration => "FieldDeclaration"
  | enumConstant => "EnumConstant"
  | localVariableDeclaration => "LocalVariableDeclaration"
  | variableDeclarator => "VariableDeclarator"
  | formalParameter => "FormalParameter"
  | typeParameter => "TypeParameter"
  | modifiers => "Modifiers"
  | simpleType => "SimpleType"
  | qualifiedType => "QualifiedType"
  | arrayType => "ArrayType"
  | primitiveType => "PrimitiveType"
  | parameterizedType => "ParameterizedType"
  | methodInvocation => "MethodInvocation"
  | constructorInvocation => "ConstructorInvocation"
  | objectCreation => "ObjectCreation"
  | name => "Name"
  | qualifiedName => "QualifiedName"
  | fieldAccess => "FieldAccess"
  | this => "This"
  | super => "Super"
  | literal _ => "Literal"
  | cast => "Cast"
  | parenthesized => "Parenthesized"
  | block => "Block"
  | lambda => "Lambda"
  | catchClause => "CatchClause"
  | .for => "For"
  | enhancedFor => "EnhancedFor"
  | other => "Other"

/-- The name of a kind, which for a literal tells the kind of literal. -/
def fullText : Kind → String
  | literal kind => "Literal(" ++ kind.text ++ ")"
  | kind => kind.text

end Kind

/-- What a node is to its parent. -/
inductive Role where
  | root
  | name
  | type
  | returnType
  | superclass
  | interface
  | parameter
  | throws
  | member
  | body
  | receiver
  | argument
  | value
  | declarator
  | typeArgument
  | typeParameter
  | other
deriving DecidableEq, Repr

/-- The name of a role. -/
def Role.text : Role → String
  | root => "Root"
  | name => "Name"
  | type => "Type"
  | returnType => "ReturnType"
  | superclass => "Superclass"
  | interface => "Interface"
  | parameter => "Parameter"
  | throws => "Throws"
  | member => "Member"
  | body => "Body"
  | receiver => "Receiver"
  | argument => "Argument"
  | value => "Value"
  | declarator => "Declarator"
  | typeArgument => "TypeArgument"
  | typeParameter => "TypeParameter"
  | other => "Other"

end CodeAtlas.Source
