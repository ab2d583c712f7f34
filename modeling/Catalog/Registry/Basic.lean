import Catalog.Json.Reader
import Catalog.Registry.Config
import Catalog.Registry.Error
import Catalog.Request.Basic
import Catalog.Schema.Builtin
import Catalog.Schema.Contract
import Catalog.Schema.Strict

/-!
Registries: a contract for each kind of request that has one, and the rules for checking bodies
against them.
-/

namespace Catalog

structure Registry where
  config : RegistryConfig
  contracts : Kind → Option Contract

namespace Registry

def empty (config : RegistryConfig) : Registry :=
  ⟨config, fun _ => none⟩

/-- Registers a schema in the place of any that the kind had before. -/
def registerValue (r : Registry) (kind : Kind) (schema : Json) : Except SchemaError Registry :=
  match Contract.ofDocument? (if r.config.strictMode then Schema.strict schema else schema) with
  | some c => .ok { r with contracts := fun k => if k = kind then some c else r.contracts k }
  | none => .error (.notSchema kind)

def register (r : Registry) (kind : Kind) (schema : Json.Source) : Except SchemaError Registry :=
  match Json.parse schema with
  | .ok v => r.registerValue kind v
  | .error e => .error (.unread e)

/-- A registry of the built-in contracts. -/
def builtin (config : RegistryConfig) : Except SchemaError Registry :=
  Kind.all.foldlM (fun r k => r.register k (.ofText (Schema.builtinText k))) (empty config)

def hasSchema (r : Registry) (kind : Kind) : Bool :=
  (r.contracts kind).isSome

/-- The kinds that have a contract, in the order of declaration. -/
def kinds (r : Registry) : List Kind :=
  Kind.all.filter r.hasSchema

/-- What holds for bodies of a kind without a contract. -/
def withoutContract (r : Registry) (kind : Kind) : Except SchemaError Unit :=
  if r.config.failOnMissingSchema then .error (.noContract kind) else .ok ()

def checkContract (kind : Kind) (c : Contract) (body : Json) : Except SchemaError Unit :=
  match c.issues body with
  | [] => .ok ()
  | first :: others => .error (.invalid kind first others)

def validateValue (r : Registry) (kind : Kind) (body : Json) : Except SchemaError Unit :=
  match r.contracts kind with
  | some c => checkContract kind c body
  | none => r.withoutContract kind

/-- Checks the bytes of a body. They are not read if there are too many of them, or no contract. -/
def validate (r : Registry) (kind : Kind) (body : ByteArray) : Except SchemaError Unit :=
  if r.config.maxBodySize < body.size then .error (.tooLarge kind body.size r.config.maxBodySize)
  else
    match r.contracts kind with
    | some c =>
      match Json.parse (.ofBytes body) with
      | .ok v => checkContract kind c v
      | .error e => .error (.unread e)
    | none => r.withoutContract kind

def validateRequest (r : Registry) (request : Request) : Except SchemaError Unit :=
  r.validateValue request.kind request.body

end Registry
end Catalog
