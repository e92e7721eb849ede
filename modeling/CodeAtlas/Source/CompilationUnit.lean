/-
# Compilation units

A compilation unit is a source file with its syntax tree, its package and its imports.
-/
import CodeAtlas.Source.Lowering

namespace CodeAtlas.Source

/-! ## Imports -/

/-- An import declaration.  `name` is dotted and without the star of an on-demand import. -/
structure Import where
  node : Nat
  name : String
  isStatic : Bool
  onDemand : Bool
deriving DecidableEq, Repr

namespace Import

/-- A text without the semicolons at its end. -/
def dropSemicolons (s : List Char) : List Char :=
  (s.reverse.dropWhile (· == ';')).reverse

/-- The text after the word `static`, if a blank follows the word. -/
def afterStatic? (body : List Char) : Option (List Char) :=
  match Text.afterLead? "static".toList body with
  | some (c :: rest) => if Text.isBlank c then some (Text.trimBlanks rest) else none
  | _ => none

/-- Reads the text of an import declaration. -/
def ofText? (node : Nat) (text : String) : Option Import :=
  match Text.afterLead? "import".toList (Text.trimBlanks text.toList) with
  | none => none
  | some rest =>
    let body := Text.trimBlanks (dropSemicolons (Text.trimBlanks rest))
    let isStatic := (afterStatic? body).isSome
    let dotted := ((afterStatic? body).getD body).filter (fun c => !Text.isBlank c)
    match Text.beforeTail? ".*".toList dotted with
    | some package => some ⟨node, String.ofList package, isStatic, true⟩
    | none => some ⟨node, String.ofList dotted, isStatic, false⟩

/-- The last segment of the imported name. -/
def simpleName (imp : Import) : String :=
  Text.lastPiece '.' imp.name

/-- An import of one class by its name. -/
def isSingleType (imp : Import) : Bool :=
  !imp.isStatic && !imp.onDemand

end Import

/-! ## Units -/

/-- A parsed source file.  The package of a file that declares none is empty. -/
structure CompilationUnit where
  path : String
  ast : Ast
  package : String
  imports : List Import
  hasErrors : Bool

namespace CompilationUnit

/-- The package a file declares. -/
def packageOf (ast : Ast) : String :=
  let isName := fun id => ast.kind id == .qualifiedName || ast.kind id == .name
  match (ast.childrenOfKind 0 .packageDeclaration).head? with
  | none => ""
  | some decl =>
    match (ast.children decl).find? isName with
    | some id => Text.dropBlanks (ast.text id)
    | none => ""

/-- The imports a file declares. -/
def importsOf (ast : Ast) : List Import :=
  (ast.childrenOfKind 0 .importDeclaration).filterMap (fun id => Import.ofText? id (ast.text id))

/-- The unit of a syntax tree. -/
def ofAst (path : String) (ast : Ast) (hasErrors : Bool) : CompilationUnit where
  path := path
  ast := ast
  package := packageOf ast
  imports := importsOf ast
  hasErrors := hasErrors

/-- The unit of a text with a given concrete tree. -/
def parse (path source : String) (tree : ParseTree) : CompilationUnit :=
  ofAst path (lower source tree.root) tree.hasErrors

/-- Every type declaration of the file, outer ones before those inside. -/
def typeDeclarations (unit : CompilationUnit) : List Nat :=
  unit.ast.ids.filter (fun id => (unit.ast.kind id).isTypeDeclaration)

/-- The import of one class whose last segment is a given name. -/
def explicitImport? (unit : CompilationUnit) (simple : String) : Option Import :=
  unit.imports.find? (fun imp => imp.isSingleType && imp.simpleName == simple)

/-- The on-demand imports of packages and classes. -/
def starImports (unit : CompilationUnit) : List Import :=
  unit.imports.filter (fun imp => imp.onDemand && !imp.isStatic)

end CompilationUnit

end CodeAtlas.Source
