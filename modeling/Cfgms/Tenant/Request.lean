import Cfgms.Tenant.Store
import Mathlib.Data.Int.Notation

/-! # Tenant requests

The checks that a create or update request passes before any store call is made, in the
order in which they are made. Each refusal carries the text that the caller sees.
-/

namespace Cfgms.Tenant

structure TenantRequest where
  id : String
  name : String
  description : String
  parentID : String
  metadata : Metadata

def metaKeyAdminContacts : String := "cfgms.admin_contacts"
def metaKeyConfigSourceType : String := "config_source_type"
def metaKeyConfigSourceCredential : String := "config_source_credential"
def configSourceTypeGit : String := "git"

/-- The value of a key, empty when the key is missing. -/
def Metadata.get (m : Metadata) (key : String) : String := (m.lookup key).getD ""

def isNameChar (c : Char) : Bool :=
  ('a' ≤ c && c ≤ 'z') || ('A' ≤ c && c ≤ 'Z') || ('0' ≤ c && c ≤ '9') || c == '_' || c == '-'

def validateTenantRequest (req : TenantRequest) : Except TenantError Unit :=
  if req.name = "" then .error .nameRequired
  else if ¬ req.name.toList.all isNameChar then .error .nameFormat
  else if req.name.utf8ByteSize > 64 then .error .nameTooLong
  else if req.description.utf8ByteSize > 255 then .error .descriptionTooLong
  else .ok ()

def collapseHyphens : List Char → List Char
  | [] => []
  | [c] => [c]
  | c :: d :: cs =>
    if c = '-' ∧ d = '-' then collapseHyphens (d :: cs) else c :: collapseHyphens (d :: cs)

def dropLeadingHyphen : List Char → List Char
  | '-' :: cs => cs
  | cs => cs

/-- The ID of a tenant created without one: its name and the time in seconds. -/
def generateTenantID (name : String) (timestamp : ℤ) : String :=
  let id := name.toList.map fun c => if isNameChar c then c else '-'
  let id := dropLeadingHyphen (collapseHyphens id)
  let id := (dropLeadingHyphen id.reverse).reverse
  String.ofList id ++ "-" ++ toString timestamp

def isLabelChar (c : Char) : Bool :=
  ('a' ≤ c && c ≤ 'z') || ('0' ≤ c && c ≤ '9') || c == '-'

def isKubernetesName (cs : List Char) : Bool :=
  cs != [] && cs.all isLabelChar && cs.head? != some '-' && cs.getLast? != some '-'

def validateExplicitTenantID (id : String) : Except TenantError Unit :=
  if id = "" then .error .emptyID
  else if id.utf8ByteSize > 63 then .error (.explicitIDTooLong id.utf8ByteSize)
  else if ¬ isKubernetesName id.toList then .error (.explicitIDFormat id)
  else .ok ()

/-- A tenant may only name secrets of its own, by a single path segment. -/
def validateCredentialRefOwnership (tenantID : String) (metadata : Metadata) :
    Except TenantError Unit :=
  let ref := metadata.get metaKeyConfigSourceCredential
  if ref = "" then .ok ()
  else
    let owner := String.ofList (ref.toList.takeWhile (· ≠ '/'))
    match ref.toList.dropWhile (· ≠ '/') with
    | [] => .error .credentialForm
    | _ :: key =>
      if owner = "" ∨ key = [] then .error .credentialForm
      else if owner ≠ tenantID then .error (.credentialOwner owner tenantID)
      else if '/' ∈ key ∨ '\\' ∈ key ∨ key = ['.'] ∨ key = ['.', '.'] then
        .error (.credentialSegment (String.ofList key))
      else .ok ()

/-- The mount point check asks a remote repository; its verdict is a parameter. -/
abbrev MountPointValidator := Metadata → Except TenantError Unit

def validateConfigSource (validator : MountPointValidator) (tenantID : String)
    (metadata : Metadata) : Except TenantError Unit := do
  validateCredentialRefOwnership tenantID metadata
  if metadata.get metaKeyConfigSourceType = configSourceTypeGit then validator metadata

/-- The name under which a create request is checked and stored. -/
def TenantRequest.displayName (req : TenantRequest) : String :=
  if req.id ≠ "" ∧ req.name = "" then req.id else req.name

/-- What a create request is refused for before the store is asked; otherwise its ID. -/
def checkCreate (validator : MountPointValidator) (timestamp : ℤ) (req : TenantRequest) :
    Except TenantError String := do
  let req := { req with name := req.displayName }
  if (req.metadata.lookup metaKeyAdminContacts).isSome then throw .reservedMetadataKey
  (validateTenantRequest req).mapError (.wrapped "validation failed")
  let tenantID ←
    if req.id ≠ "" then do
      (validateExplicitTenantID req.id).mapError (.wrapped "invalid explicit tenant ID")
      pure req.id
    else pure (generateTenantID req.name timestamp)
  validateConfigSource validator tenantID req.metadata
  return tenantID

/-- What an update request is refused for once the tenant has been read. -/
def checkUpdate (validator : MountPointValidator) (tenantID : String) (req : TenantRequest) :
    Except TenantError Unit := do
  if (req.metadata.lookup metaKeyAdminContacts).isSome then throw .reservedMetadataKey
  (validateTenantRequest req).mapError (.wrapped "validation failed")
  validateConfigSource validator tenantID req.metadata

/-- The row that an update writes back: everything else is as it was read. -/
def updatedRow (existing : TenantData) (req : TenantRequest) : TenantData :=
  { existing with
    name := req.name
    description := req.description
    metadata :=
      match existing.metadata.lookup metaKeyAdminContacts with
      | some contacts => req.metadata ++ [(metaKeyAdminContacts, contacts)]
      | none => req.metadata }

end Cfgms.Tenant
