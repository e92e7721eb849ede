/-
# Documents

A document has one root element.  Tags are balanced, namespace prefixes are declared, and no
attribute occurs twice in an element.  Adjacent character data forms one text node; comments and
processing instructions are nodes of their own.
-/
import CodeAtlas.Xml.Token

namespace CodeAtlas.Xml

/-- A node of a document.  Elements and attributes are named by their local names; the attributes
of an element are those without a namespace. -/
inductive Node where
  | element (name : String) (attributes : List (String × String)) (children : List Node)
  | text (content : String)
  | comment
  | instruction

namespace Node

/-- The local name of an element. -/
def name? : Node → Option String
  | element name _ _ => some name
  | _ => none

/-- Whether a node is an element. -/
def isElement (node : Node) : Bool :=
  node.name?.isSome

/-- Whether a node is an element of a name. -/
def hasName (name : String) (node : Node) : Bool :=
  node.name? == some name

/-- The value of an attribute. -/
def attribute? (node : Node) (name : String) : Option String :=
  match node with
  | element _ attributes _ => attributes.lookup name
  | _ => none

/-- The nodes below an element. -/
def children : Node → List Node
  | element _ _ children => children
  | _ => []

/-- The elements right below an element. -/
def elements (node : Node) : List Node :=
  node.children.filter isElement

/-- The content of a text node. -/
def content? : Node → Option String
  | text content => some content
  | _ => none

/-- The text an element begins with. -/
def text? (node : Node) : Option String :=
  node.children.head?.bind content?

end Node

/-! ## Namespaces -/

/-- The namespace of the prefix `xml`. -/
def xmlNamespace : String := "http://www.w3.org/XML/1998/namespace"

/-- The namespace of declarations of namespaces. -/
def declarationNamespace : String := "http://www.w3.org/2000/xmlns/"

/-- Prefixes and their namespaces, innermost first. -/
abbrev Namespaces := List (String × String)

/-- What an attribute is: the declaration of a prefix, of the default namespace, or plain. -/
inductive AttributeRole where
  | declaresPrefix
  | declaresDefault
  | plain
deriving DecidableEq, Repr

/-- The role of an attribute. -/
def Attribute.role (attr : Attribute) : AttributeRole :=
  if attr.name.qualifier == "xmlns" then .declaresPrefix
  else if attr.name.localName == "xmlns" then .declaresDefault
  else .plain

/-- Whether a declaration of a namespace is allowed. -/
def Attribute.isAllowed (attr : Attribute) : Bool :=
  match attr.role with
  | .declaresPrefix =>
    attr.value != declarationNamespace &&
      ((attr.name.localName == "xml") == (attr.value == xmlNamespace))
  | .declaresDefault => attr.value != declarationNamespace && attr.value != xmlNamespace
  | .plain => true

/-- The prefixes that the attributes of a tag declare. -/
def declaredPrefixes (attributes : List Attribute) : Namespaces :=
  (attributes.filter (fun a => a.role == .declaresPrefix && a.value != xmlNamespace)).map
    (fun a => (a.name.localName, a.value))

/-- Whether the entries of a list differ from each other. -/
def allDistinct {α : Type} [BEq α] : List α → Bool
  | [] => true
  | a :: rest => !rest.contains a && allDistinct rest

/-- A plain attribute with its namespace. -/
structure ResolvedAttribute where
  space : Option String
  name : String
  value : String
deriving DecidableEq, Repr

/-- The namespace of an attribute with a given prefix; an attribute without a prefix has none. -/
def attributeSpace? (scope : Namespaces) (qualifier : String) : Option (Option String) :=
  if qualifier.isEmpty then some none
  else if qualifier == "xml" then some (some xmlNamespace)
  else (scope.lookup qualifier).map some

/-- The plain attributes of a tag, if all prefixes are declared and no attribute occurs twice. -/
def resolveAttributes (scope : Namespaces) (attributes : List Attribute) :
    Option (List ResolvedAttribute) :=
  let plain := attributes.filter (fun a => a.role == .plain)
  match plain.mapM (fun a => (attributeSpace? scope a.name.qualifier).map
      (fun space => (⟨space, a.name.localName, a.value⟩ : ResolvedAttribute))) with
  | none => none
  | some resolved =>
    if allDistinct (resolved.map (fun a => (a.space, a.name))) then some resolved else none

/-! ## Building the tree -/

/-- An element that is still open: its name, attributes and children so far, latest first, and the
prefixes in scope. -/
structure Frame where
  name : QName
  attributes : List (String × String)
  children : List Node
  scope : Namespaces

/-- Puts a node behind those of an open element; text joins text right before it. -/
def addNode (node : Node) (children : List Node) : List Node :=
  match node, children with
  | .text more, .text content :: rest => .text (content ++ more) :: rest
  | node, children => node :: children

/-- The element of a start tag, without children, seen from the prefixes in scope. -/
def openElement (scope : Namespaces) (name : QName) (attributes : List Attribute) :
    Option Frame :=
  let declared := declaredPrefixes attributes
  let scope := declared ++ scope
  let prefixes := (attributes.filter (fun a => a.role == .declaresPrefix)).map (·.name.localName)
  if !attributes.all Attribute.isAllowed || !allDistinct prefixes || name.qualifier == "xmlns" ||
      !(name.qualifier.isEmpty || (scope.lookup name.qualifier).isSome) then none
  else
    (resolveAttributes scope attributes).map fun resolved =>
      { name := name
        attributes := (resolved.filter (fun a => a.space.isNone)).map (fun a => (a.name, a.value))
        children := []
        scope := scope }

/-- The node of an element that is complete. -/
def Frame.close (frame : Frame) : Node :=
  .element frame.name.localName frame.attributes frame.children.reverse

/-- The state while a document is read: the root element, once it is complete, and the elements
that are open, innermost first. -/
structure Partial where
  root : Option Node
  frames : List Frame

/-- Adds a node to the innermost open element; outside of the root only the root itself may come. -/
def Partial.add (state : Partial) (node : Node) : Option Partial :=
  match state.frames with
  | frame :: outer =>
    some { state with frames := { frame with children := addNode node frame.children } :: outer }
  | [] =>
    if state.root.isNone && node.isElement then some { state with root := some node } else none

/-- Adds a comment or a processing instruction, which may also stand outside of the root. -/
def Partial.addAside (state : Partial) (node : Node) : Option Partial :=
  if state.frames.isEmpty then some state else state.add node

/-- Takes in a token. -/
def Partial.step (state : Partial) : Token → Option Partial
  | .start name attributes closed =>
    let scope := (state.frames.head?.map Frame.scope).getD []
    match openElement scope name attributes with
    | none => none
    | some frame =>
      if closed then state.add frame.close
      else if state.frames.isEmpty && state.root.isSome then none
      else some { state with frames := frame :: state.frames }
  | .stop name =>
    match state.frames with
    | [] => none
    | frame :: outer =>
      if frame.name = name then { state with frames := outer }.add frame.close else none
  | .text raw =>
    if state.frames.isEmpty then if raw.all isSpace then some state else none
    else (text? raw).bind (fun content => state.add (.text content))
  | .cdata content =>
    if state.frames.isEmpty then none
    else state.add (.text (String.ofList (Text.plainBreaks content)))
  | .comment => state.addAside .comment
  | .instruction => state.addAside .instruction

/-- The root element of a document; none when the document is malformed. -/
def parse (document : String) : Option Node :=
  match (documentTokens document).bind (fun tokens => tokens.foldlM Partial.step ⟨none, []⟩) with
  | some ⟨some root, []⟩ => some root
  | _ => none

end CodeAtlas.Xml
