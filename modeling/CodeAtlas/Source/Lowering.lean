/-
# Lowering

Lowering turns a concrete tree into a syntax tree.  A concrete node is kept, kept without what is
below it, dropped, or dropped in favour of the nodes below it, which then take a role from it.
-/
import CodeAtlas.Source.Ast

namespace CodeAtlas.Source

/-- What becomes of a concrete node. -/
inductive Lowering where
  | keep (kind : Kind)
  | leaf (kind : Kind)
  /-- The nodes below take its place, in the given role or in its own. -/
  | flatten (role : Option Role)
  | skip
deriving DecidableEq, Repr

/-- The concrete kinds that denote types. -/
def isTypeKind (kind : String) : Bool :=
  ["type_identifier", "scoped_type_identifier", "generic_type", "array_type", "integral_type",
    "floating_point_type", "boolean_type", "void_type"].contains kind

/-- The role of a concrete node that fills no field which decides it. -/
def roleByKinds (parent child : String) : Role :=
  if parent == "type_parameter" && child == "type_identifier" then .name
  else if parent == "generic_type" && isTypeKind child then .type
  else if parent == "spread_parameter" && child == "variable_declarator" then .declarator
  else if parent == "spread_parameter" && isTypeKind child then .type
  else if parent == "interface_declaration" && child == "extends_interfaces" then .interface
  else if child == "throws" then .throws
  else .other

/-- The role of a concrete node, by the kind of its parent, the field it fills and its kind. -/
def roleFor (parent : String) (field : Option String) (child : String) : Role :=
  match field with
  | some "name" => .name
  | some "field" => .name
  | some "type" =>
    if parent == "method_declaration" || parent == "annotation_type_element_declaration" then
      .returnType
    else .type
  | some "element" => .type
  | some "body" => .body
  | some "object" => .receiver
  | some "value" => .value
  | some "declarator" => .declarator
  | some "superclass" => .superclass
  | some "interfaces" => .interface
  | some "parameters" => .parameter
  | some "arguments" => .argument
  | some "type_arguments" => .typeArgument
  | some "type_parameters" => .typeParameter
  | _ => roleByKinds parent child

/-- Whether a text ends in a letter, in either case. -/
def endsInLetter (text : String) (small capital : Char) : Bool :=
  match text.toList.getLast? with
  | some c => c == small || c == capital
  | none => false

/-- What becomes of a concrete node, by its kind, the kind of its parent and its text. -/
def classify (parent kind text : String) : Lowering :=
  match kind with
  | "package_declaration" => .keep .packageDeclaration
  | "import_declaration" => .keep .importDeclaration
  | "class_declaration" => .keep .classDeclaration
  | "interface_declaration" => .keep .interfaceDeclaration
  | "enum_declaration" => .keep .enumDeclaration
  | "record_declaration" => .keep .recordDeclaration
  | "annotation_type_declaration" => .keep .annotationDeclaration
  | "method_declaration" => .keep .methodDeclaration
  | "annotation_type_element_declaration" => .keep .methodDeclaration
  | "constructor_declaration" => .keep .constructorDeclaration
  | "compact_constructor_declaration" => .keep .constructorDeclaration
  | "field_declaration" => .keep .fieldDeclaration
  | "constant_declaration" => .keep .fieldDeclaration
  | "enum_constant" => .keep .enumConstant
  | "local_variable_declaration" => .keep .localVariableDeclaration
  | "variable_declarator" => .keep .variableDeclarator
  | "formal_parameter" => .keep .formalParameter
  | "spread_parameter" => .keep .formalParameter
  | "catch_formal_parameter" => .keep .formalParameter
  | "type_parameter" => .keep .typeParameter
  | "modifiers" => .leaf .modifiers
  | "type_identifier" => .leaf (if parent == "type_parameter" then .name else .simpleType)
  | "scoped_type_identifier" => .leaf .qualifiedType
  | "array_type" => .keep .arrayType
  | "generic_type" => .keep .parameterizedType
  | "integral_type" => .leaf .primitiveType
  | "floating_point_type" => .leaf .primitiveType
  | "boolean_type" => .leaf .primitiveType
  | "void_type" => .leaf .primitiveType
  | "method_invocation" => .keep .methodInvocation
  | "explicit_constructor_invocation" => .keep .constructorInvocation
  | "object_creation_expression" => .keep .objectCreation
  | "identifier" => .leaf .name
  | "scoped_identifier" => .leaf .qualifiedName
  | "field_access" => .keep .fieldAccess
  | "this" => .leaf .this
  | "super" => .leaf .super
  | "cast_expression" => .keep .cast
  | "parenthesized_expression" => .keep .parenthesized
  | "block" => .keep .block
  | "constructor_body" => .keep .block
  | "lambda_expression" => .keep .lambda
  | "catch_clause" => .keep .catchClause
  | "for_statement" => .keep .for
  | "enhanced_for_statement" => .keep .enhancedFor
  | "decimal_integer_literal" => integer
  | "hex_integer_literal" => integer
  | "octal_integer_literal" => integer
  | "binary_integer_literal" => integer
  | "decimal_floating_point_literal" => floating
  | "hex_floating_point_literal" => floating
  | "character_literal" => .leaf (.literal .char)
  | "string_literal" => .leaf (.literal .string)
  | "text_block" => .leaf (.literal .string)
  | "true" => .leaf (.literal .boolean)
  | "false" => .leaf (.literal .boolean)
  | "null_literal" => .leaf (.literal .null)
  | "superclass" => .flatten (some .superclass)
  | "super_interfaces" => .flatten (some .interface)
  | "extends_interfaces" => .flatten (some .interface)
  | "formal_parameters" => .flatten (some .parameter)
  | "inferred_parameters" => .flatten (some .parameter)
  | "argument_list" => .flatten (some .argument)
  | "throws" => .flatten (some .throws)
  | "class_body" => .flatten (some .member)
  | "interface_body" => .flatten (some .member)
  | "enum_body" => .flatten (some .member)
  | "enum_body_declarations" => .flatten (some .member)
  | "annotation_type_body" => .flatten (some .member)
  | "type_arguments" => .flatten (some .typeArgument)
  | "type_parameters" => .flatten (some .typeParameter)
  | "catch_type" => .flatten (some .type)
  | "type_list" => .flatten none
  | "dimensions" => .skip
  | "line_comment" => .skip
  | "block_comment" => .skip
  | _ => .keep .other
where
  integer : Lowering :=
    .leaf (.literal (if endsInLetter text 'l' 'L' then .long else .int))
  floating : Lowering :=
    .leaf (.literal (if endsInLetter text 'f' 'F' then .float else .double))

/-! ## Lowering a tree -/

/-- The kind of a concrete node. -/
def Cst.kind : Cst → String
  | .node kind _ _ _ _ => kind

/-- The field a concrete node fills. -/
def Cst.field : Cst → Option String
  | .node _ field _ _ _ => field

mutual

/-- Lowers a concrete node in a role, numbering from `next` on; the second part is the next free
number. -/
def lowerNode (source parent : String) (role : Role) (next : Nat) : Cst → List Tree × Nat
  | .node kind _ start stop children =>
    let span : Span := ⟨start, stop - start⟩
    match classify parent kind ((Text.sliceBytes? source start stop).getD "") with
    | .skip => ([], next)
    | .flatten inner => lowerAll source kind (some (inner.getD role)) next children
    | .leaf kept => ([.node next ⟨kept, role, span⟩ []], next + 1)
    | .keep kept =>
      let (below, after) := lowerAll source kind none (next + 1) children
      ([.node next ⟨kept, role, span⟩ below], after)

/-- Lowers the concrete nodes below a node of kind `parent`, all in one role if one is given. -/
def lowerAll (source parent : String) (role : Option Role) (next : Nat) :
    List Cst → List Tree × Nat
  | [] => ([], next)
  | child :: rest =>
    let own := role.getD (roleFor parent child.field child.kind)
    let (first, next) := lowerNode source parent own next child
    let (others, next) := lowerAll source parent role next rest
    (first ++ others, next)

end

/-- The syntax tree of a text with a given concrete tree. -/
def lower (source : String) : Cst → Ast
  | .node kind _ start stop children =>
    let (below, _) := lowerAll source kind none 1 children
    .ofTree source (.node 0 ⟨.compilationUnit, .root, ⟨start, stop - start⟩⟩ below)

end CodeAtlas.Source
