/-!
How a registry treats bodies and the schema files that it loads.
-/

namespace Catalog

structure RegistryConfig where
  /-- Object schemas are closed to members that they do not mention. -/
  strictMode : Bool := false
  /-- A body whose kind has no contract is refused, not let through. -/
  failOnMissingSchema : Bool := false
  /-- Longer bodies are refused before they are read. -/
  maxBodySize : Nat := 1024 * 1024
  maxSchemasFromDirectory : Nat := 32
  maxSchemaFileSize : Nat := 64 * 1024
deriving DecidableEq

end Catalog
