import Proforma.Files.Basic
import Proforma.Json.Reader
import Proforma.Schema.Codec
import Proforma.Schema.Source
import Proforma.Text.Identifier
import Proforma.Toml.Reader

/-! Schemas in the files of a directory, one JSON or TOML file for each entity. -/
namespace Proforma.Source

open Text

/-- The reply of a file that exists. -/
def replyOfFile (files : Files) (path : String) (read : String → Option Json) : Reply :=
  match files.read path with
  | .error fault => .failed ("Failed to read schema file: " ++ path ++ ": " ++ fault.message)
  | .ok text =>
    match (read text).bind Schema.decode? with
    | some s => .schema s
    | none => .failed ("Failed to parse schema file: " ++ path)

def jsonPath (directory entity : String) : String := Files.join directory (entity ++ ".json")

def tomlPath (directory entity : String) : String := Files.join directory (entity ++ ".toml")

/-- The files of a directory that may hold the schema of an entity. -/
def pathsIn (directory entity : String) : List String :=
  if isIdentifier entity.toList then [jsonPath directory entity, tomlPath directory entity] else []

/-- The schema files of a directory. Of two files for an entity the JSON file counts. -/
def ofDirectory (files : Files) (directory : String) : Source := fun entity =>
  if !isIdentifier entity.toList then
    .failed ("`" ++ entity ++ "` is not a valid entity type name")
  else
    let json := jsonPath directory entity
    let toml := tomlPath directory entity
    if files.has json then replyOfFile files json Json.read?
    else if files.has toml then replyOfFile files toml Toml.read?
    else .notFound

end Proforma.Source
