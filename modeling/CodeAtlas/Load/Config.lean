/-
# Load settings

How a workspace is loaded.  Settings are read from a JSON record, whose missing fields keep their
defaults and whose unknown fields are ignored, or from a JSON list, which gives the fields in
order.  Two environment variables override them.
-/
import CodeAtlas.Disk.Path
import CodeAtlas.Json.Value
import CodeAtlas.Regex.Program
import CodeAtlas.Text.Blank

namespace CodeAtlas

/-- Settings for loading a workspace. -/
structure LoadConfig where
  /-- How many tasks of one priority run together. -/
  workers : Nat := 1
  /-- Whether placeholders are made for methods that are called and cannot be found. -/
  createPseudoMethods : Bool := true
  /-- Whether third-party items that nothing refers to are dropped in the end. -/
  pruneThirdParty : Bool := true
  /-- Whether every archive is flagged as third-party. -/
  archivesAreThirdParty : Bool := true
  /-- Patterns for the names of projects that are flagged as third-party. -/
  thirdPartyPatterns : List String := []
  /-- Whether the entries of an archive are loaded only when all its dependencies are known. -/
  requireArchiveDependencies : Bool := true
  /-- The source folders of a project that declares none. -/
  sourceFolders : List String := ["src"]
  /-- The files that mark a directory as a project. -/
  projectMarkers : List String := [".project"]
  archiveExtensions : List String := ["jar", "rar"]
  /-- The least version a snapshot is written with. -/
  snapshotVersion : UInt32 := 1
deriving DecidableEq, Repr

namespace LoadConfig

/-- A field of the written settings: its name and how its value is taken over. -/
structure Field where
  name : String
  set? : Json.Value → LoadConfig → Option LoadConfig

/-- A field with a decoder and a setter. -/
def field {α : Type} (name : String) (decode? : Json.Value → Option α)
    (set : α → LoadConfig → LoadConfig) : Field where
  name := name
  set? value config := (decode? value).map (fun a => set a config)

/-- The fields in order. -/
def fields : List Field :=
  [field "workers" (Json.Value.natBelow? Text.bound64) (fun a c => { c with workers := a }),
    field "create_pseudo_methods" Json.Value.bool? (fun a c => { c with createPseudoMethods := a }),
    field "prune_third_party" Json.Value.bool? (fun a c => { c with pruneThirdParty := a }),
    field "jars_are_third_party" Json.Value.bool?
      (fun a c => { c with archivesAreThirdParty := a }),
    field "third_party_patterns" Json.Value.texts? (fun a c => { c with thirdPartyPatterns := a }),
    field "require_jar_dependencies" Json.Value.bool?
      (fun a c => { c with requireArchiveDependencies := a }),
    field "source_folders" Json.Value.texts? (fun a c => { c with sourceFolders := a }),
    field "project_markers" Json.Value.texts? (fun a c => { c with projectMarkers := a }),
    field "archive_extensions" Json.Value.texts? (fun a c => { c with archiveExtensions := a }),
    field "snapshot_version" (Json.Value.natBelow? Text.bound32)
      (fun a c => { c with snapshotVersion := a.toUInt32 })]

/-- The field of a name. -/
def field? (name : String) : Option Field :=
  fields.find? (fun field => field.name == name)

/-- Takes the fields of a record over; a name may not be given twice when it is known. -/
def ofRecord? : List (Option String × Json.Value) → List String → LoadConfig → Option LoadConfig
  | [], _, config => some config
  | (none, _) :: _, _, _ => none
  | (some name, value) :: rest, given, config =>
    match field? name with
    | none => ofRecord? rest given config
    | some field =>
      if given.contains name then none
      else (field.set? value config).bind (ofRecord? rest (name :: given))

/-- Takes values over in the order of the fields; there may not be more values than fields. -/
def ofList? : List Field → List Json.Value → LoadConfig → Option LoadConfig
  | _, [], config => some config
  | [], _ :: _, _ => none
  | field :: fields, value :: rest, config =>
    (field.set? value config).bind (ofList? fields rest)

/-- The settings that a JSON value gives. -/
def ofJson? : Json.Value → Option LoadConfig
  | .record given => ofRecord? given [] {}
  | .list values => ofList? fields values {}
  | _ => none

/-- The settings that the text of a file gives. -/
def ofText? (text : String) : Option LoadConfig :=
  (Json.read? text).bind ofJson?

/-- The settings as JSON. -/
def toJson (config : LoadConfig) : Json.Value :=
  let texts := fun (items : List String) => Json.Value.list (items.map .ofString)
  .ofFields [("workers", .ofNat config.workers),
    ("create_pseudo_methods", .bool config.createPseudoMethods),
    ("prune_third_party", .bool config.pruneThirdParty),
    ("jars_are_third_party", .bool config.archivesAreThirdParty),
    ("third_party_patterns", texts config.thirdPartyPatterns),
    ("require_jar_dependencies", .bool config.requireArchiveDependencies),
    ("source_folders", texts config.sourceFolders),
    ("project_markers", texts config.projectMarkers),
    ("archive_extensions", texts config.archiveExtensions),
    ("snapshot_version", .ofNat config.snapshotVersion.toNat)]

/-- The settings after the environment has had its say. -/
def withEnvironment (config : LoadConfig) (var : String → Option String) : LoadConfig :=
  let config := match (var "CMTSCOPE_WORKERS").bind (fun value => Text.readWord64? (Text.trim value)) with
    | some workers => { config with workers := max workers 1 }
    | none => config
  match (var "CMTSCOPE_NO_PRUNE").map Text.trim with
  | some value =>
    if value == "1" || value == "true" || value == "yes" then { config with pruneThirdParty := false }
    else config
  | none => config

/-- Whether the extension of a path is that of an archive; letters of either case are the same. -/
def isArchive (config : LoadConfig) (path : String) : Bool :=
  match Path.extension? path with
  | some extension => config.archiveExtensions.any (fun known => Text.sameIgnoringCase known extension)
  | none => false

/-- The matchers of the third-party patterns; none when a pattern is wrong. -/
def thirdPartyMatchers? (config : LoadConfig) : Option (List Regex.Matcher) :=
  config.thirdPartyPatterns.mapM Regex.Matcher.ofText?

end LoadConfig

end CodeAtlas
