import Cfgms.Config.Sources

/-! # Resolution of the effective configuration

The controller reads the documents of a steward level by level and merges them. When the cascade
cannot be read, it looks up the tenant record to tell whether the tenant has a hierarchy at all,
and serves the device document alone if it has none.
-/

namespace Cfgms.Config

variable {V : Type*}

structure ConfigKey where
  tenantID : String
  space : String
  name : String
  deriving DecidableEq

structure ConfigEntry where
  data : String
  version : ℤ
  updatedAt : ℤ
  checksum : String

structure RoleFragment (V : Type*) where
  name : String
  config : StewardConfig V

inductive Read where
  | tenantPath
  | sources
  | level (depth : ℕ)
  | cluster (position : ℕ)
  | roles
  | device
  | tenantRecord
  | fallbackDevice
  deriving DecidableEq

/-- The reads that a storage fault hits, with the text of the error. -/
abbrev Faults := Read → Option String

/-- What is stored. The router may serve a tenant from another store than the controller's. -/
structure Storage (V : Type*) where
  tenantPath : String → Except String (List String)
  tenantRecord : String → Bool
  recorded : ∀ t, (tenantPath t).isOk = true → tenantRecord t = true
  routed : ConfigKey → Option ConfigEntry
  configStore : ConfigKey → Option ConfigEntry
  memberClusters : String → List String
  /-- Absent if no provider of roles is wired. -/
  matchingRoles : Option (String → List (RoleFragment V))

/-- `yaml.Unmarshal` into a configuration, the SHA-256 digest in hexadecimal, and `%q`. -/
structure Codec (V : Type*) where
  unmarshal : String → Except String (StewardConfig V)
  sha256 : String → String
  quote : String → String

inductive InheritanceLevel where
  | msp | client | group | device
  deriving DecidableEq

def InheritanceLevel.number : InheritanceLevel → ℤ
  | .msp => 0
  | .client => 1
  | .group => 2
  | .device => 3

def tenantLeafName (tenantID : String) : String :=
  .ofList (tenantID.toList.reverse.takeWhile (· ≠ '/')).reverse

def tenantLevelForDepth : ℕ → InheritanceLevel
  | 0 => .msp
  | 1 => .client
  | _ => .group

def tenantLevelConfigKey (level : InheritanceLevel) (tenantID : String) : Option ConfigKey :=
  match level with
  | .msp => some ⟨tenantID, "msp-policies", "global"⟩
  | .client => some ⟨tenantID, "client-policies", tenantLeafName tenantID⟩
  | .group => some ⟨tenantID, "group-policies", tenantLeafName tenantID ++ "-groups"⟩
  | .device => none

def clusterKey (tenantID clusterName : String) : ConfigKey :=
  ⟨tenantID, "cluster-policies", clusterName⟩

def deviceKey (tenantID stewardID : String) : ConfigKey := ⟨tenantID, "stewards", stewardID⟩

inductive TenantScope where
  | unset
  | root
  | tenant (path : String)

/-- Whether the caller may resolve configuration for the tenant. -/
def authorizeTenant (scope : TenantScope) (tenantID : String) : Bool :=
  match scope with
  | .unset => true
  | .root => true
  | .tenant path =>
    path ≠ "" && (tenantID == path || (path ++ "/").toList.isPrefixOf tenantID.toList)

inductive DocumentError where
  | read (reason : String)
  | parse (reason : String)

namespace Codec

variable (C : Codec V) (S : Storage V) (F : Faults)

/-- Read and parse one document. An absent one is no error. -/
def load (r : Read) (document : Option ConfigEntry) :
    Except DocumentError (Option (ConfigEntry × StewardConfig V)) :=
  match F r with
  | some reason => .error (.read reason)
  | none =>
    match document with
    | none => .ok none
    | some entry =>
      match C.unmarshal entry.data with
      | .error reason => .error (.parse reason)
      | .ok config => .ok (some (entry, config))

def levelSource (level : InheritanceLevel) (key : ConfigKey) (entry : ConfigEntry) :
    InheritanceSource :=
  ⟨level.number, key.tenantID, key.name, entry.version, entry.updatedAt,
    "Level " ++ toString level.number ++ " (" ++ key.space ++ ")"⟩

def clusterSource (key : ConfigKey) (entry : ConfigEntry) : InheritanceSource :=
  ⟨InheritanceLevel.group.number + 1, key.tenantID, key.name, entry.version, entry.updatedAt,
    "Cluster (cluster-policies/" ++ key.name ++ ")"⟩

def roleSource (tenantID : String) (fragment : RoleFragment V) : InheritanceSource :=
  ⟨InheritanceLevel.group.number + 2, tenantID, fragment.name, 0, 0,
    "Role (role-policies/" ++ fragment.name ++ ")"⟩

def deviceSource (key : ConfigKey) (entry : ConfigEntry) : InheritanceSource :=
  ⟨InheritanceLevel.device.number, key.tenantID, key.name, entry.version, entry.updatedAt,
    "Device Configuration"⟩

/-! ## The cascade

The levels applied so far stand for the effective configuration, which is their cascade.
-/

def applyConfigurationLevel (applied : List (ConfigLevel V)) (tenantID : String) (depth : ℕ) :
    Except String (List (ConfigLevel V)) :=
  let level := tenantLevelForDepth depth
  match tenantLevelConfigKey level tenantID with
  | none => .ok applied
  | some key =>
    match C.load F (.level depth) (S.routed key) with
    | .error (.read reason) => .error ("failed to read configuration at level " ++
        toString level.number ++ " for tenant " ++ C.quote tenantID ++ ": " ++ reason)
    | .error (.parse reason) => .error ("failed to parse configuration at level " ++
        toString level.number ++ ": " ++ reason)
    | .ok none => .ok applied
    | .ok (some (entry, config)) => .ok (applied ++ [⟨config, levelSource level key entry⟩])

/-- The loop over the tenant path, from the root down. -/
def applyLevels : ℕ → List String → List (ConfigLevel V) → Except String (List (ConfigLevel V))
  | _, [], applied => .ok applied
  | depth, tenantID :: path, applied =>
    match C.applyConfigurationLevel S F applied tenantID depth with
    | .error reason => .error ("failed to apply configuration at level " ++ toString depth ++
        " (tenant " ++ tenantID ++ "): " ++ reason)
    | .ok applied => applyLevels (depth + 1) path applied

def applyClusterConfiguration (applied : List (ConfigLevel V)) (tenantID clusterName : String)
    (position : ℕ) : Except DocumentError (List (ConfigLevel V)) :=
  let key := clusterKey tenantID clusterName
  match C.load F (.cluster position) (S.routed key) with
  | .error (.read reason) => .error (.read ("failed to read cluster configuration for " ++
      C.quote clusterName ++ ": " ++ reason))
  | .error (.parse reason) => .error (.parse ("failed to parse cluster configuration for " ++
      C.quote clusterName ++ ": " ++ reason))
  | .ok none => .ok applied
  | .ok (some (entry, config)) => .ok (applied ++ [⟨config, clusterSource key entry⟩])

/-- The identifiers in use, which a warning about a document replaces by loggable ones. -/
structure Ids where
  tenantID : String
  stewardID : String
  deriving DecidableEq

def loggable (s : String) : String := s.map fun c => if c = '\n' ∨ c = '\r' then '_' else c

def Ids.loggable (ids : Ids) : Ids := ⟨Codec.loggable ids.tenantID, Codec.loggable ids.stewardID⟩

/-- The loop over the clusters. A document that does not parse is skipped with a warning. -/
def applyClusters : ℕ → List String → Ids → List (ConfigLevel V) →
    Except String (Ids × List (ConfigLevel V))
  | _, [], ids, applied => .ok (ids, applied)
  | position, clusterName :: clusters, ids, applied =>
    match C.applyClusterConfiguration S F applied ids.tenantID clusterName position with
    | .error (.read reason) => .error ("failed to resolve cluster-policies for steward: " ++ reason)
    | .error (.parse _) => applyClusters (position + 1) clusters ids.loggable applied
    | .ok applied => applyClusters (position + 1) clusters ids applied

def applyRoles (ids : Ids) (applied : List (ConfigLevel V)) :
    Except String (List (ConfigLevel V)) :=
  match S.matchingRoles with
  | none => .ok applied
  | some matching =>
    match F .roles with
    | some reason => .error ("failed to resolve role-policies for steward: " ++ reason)
    | none => .ok (applied ++ (matching ids.stewardID).map fun fragment =>
        ⟨fragment.config, roleSource ids.tenantID fragment⟩)

def applyDeviceConfiguration (ids : Ids) (applied : List (ConfigLevel V)) :
    Except String (List (ConfigLevel V)) :=
  let key := deviceKey ids.tenantID ids.stewardID
  match C.load F .device (S.routed key) with
  | .error (.read reason) => .error ("failed to read device configuration for " ++
      C.quote ids.stewardID ++ ": " ++ reason)
  | .error (.parse reason) => .error ("failed to parse device configuration: " ++ reason)
  | .ok none => .ok applied
  | .ok (some (entry, config)) => .ok (applied ++ [⟨config, deviceSource key entry⟩])

/-- The stages after the snapshot of the sources. -/
def applyAll (path : List String) (ids : Ids) : Except String (List (ConfigLevel V)) :=
  match C.applyLevels S F 0 path [] with
  | .error reason => .error reason
  | .ok applied =>
    match C.applyClusters S F 0 (S.memberClusters ids.stewardID) ids applied with
    | .error reason => .error reason
    | .ok (ids, applied) =>
      match applyRoles S F ids applied with
      | .error reason => .error reason
      | .ok applied =>
        match C.applyDeviceConfiguration S F ids applied with
        | .error reason => .error ("failed to apply device configuration: " ++ reason)
        | .ok applied => .ok applied

def getTenantPath (tenantID : String) : Except String (List String) :=
  match F .tenantPath with
  | some reason => .error reason
  | none => S.tenantPath tenantID

def resolveLevels (scope : TenantScope) (tenantID stewardID : String) :
    Except String (List (ConfigLevel V)) :=
  if !authorizeTenant scope tenantID then
    .error ("tenant " ++ C.quote tenantID ++ " is outside the caller's authorized scope")
  else
    match getTenantPath S F tenantID with
    | .error reason => .error ("failed to resolve tenant hierarchy: " ++ reason)
    | .ok path =>
      match F .sources with
      | some reason => .error ("failed to snapshot config sources: " ++ reason)
      | none => C.applyAll S F path ⟨tenantID, stewardID⟩

end Codec

/-- An effective configuration and whether its map of sources has an entry. -/
structure Resolved (V : Type*) where
  stewardID : String
  tenantID : String
  effective : EffectiveConfiguration V
  sourced : Bool
  sourced_iff : sourced = true ↔ effective.HasSource

theorem any_speaks_iff (levels : List (ConfigLevel V)) :
    levels.any ConfigLevel.speaks = true ↔ (cascade levels).HasSource := by
  rw [hasSource_cascade, List.any_eq_true]

def Resolved.ofLevels (tenantID stewardID : String) (levels : List (ConfigLevel V)) : Resolved V :=
  ⟨stewardID, tenantID, cascade levels, levels.any ConfigLevel.speaks, any_speaks_iff levels⟩

/-- The device document as the configuration, under a single source. -/
def deviceOnly (tenantID : String) (config : StewardConfig V) : EffectiveConfiguration V :=
  EffectiveConfiguration.setSource ⟨config, fun _ => none, []⟩ "steward.config"
    ⟨InheritanceLevel.device.number, tenantID, "", 0, 0,
      "Device Configuration (tenant has no hierarchy record)"⟩

theorem hasSource_deviceOnly (tenantID : String) (config : StewardConfig V) :
    true = true ↔ (deviceOnly tenantID config).HasSource :=
  iff_of_true rfl (EffectiveConfiguration.hasSource_setSource _ _)

def Resolved.ofDevice (tenantID stewardID : String) (config : StewardConfig V) : Resolved V :=
  ⟨stewardID, tenantID, deviceOnly tenantID config, true, hasSource_deviceOnly tenantID config⟩

namespace Codec

variable (C : Codec V) (S : Storage V) (F : Faults) (scope : TenantScope)
  (tenantID stewardID : String)

def resolveConfiguration : Except String (Resolved V) :=
  (C.resolveLevels S F scope tenantID stewardID).map (Resolved.ofLevels tenantID stewardID)

inductive DeviceError where
  | notFound
  | other (reason : String)

/-- The read of the device document by the configuration manager, which checks its digest. -/
def getConfiguration : Except DeviceError (StewardConfig V) :=
  match F .fallbackDevice with
  | some reason => .error (.other ("failed to retrieve configuration: " ++ reason))
  | none =>
    match S.configStore (deviceKey tenantID stewardID) with
    | none => .error .notFound
    | some entry =>
      if C.sha256 entry.data ≠ entry.checksum then
        .error (.other "configuration data integrity check failed")
      else
        match C.unmarshal entry.data with
        | .error reason => .error (.other ("failed to parse configuration YAML: " ++ reason))
        | .ok config => .ok config

/-- No value and no error is what the caller reports as an absent configuration. -/
def resolveDeviceLevelFallback : Except String (Option (Resolved V)) :=
  match F .tenantRecord with
  | some reason => .error ("read tenant record: " ++ reason)
  | none =>
    if S.tenantRecord tenantID then .ok none
    else
      match C.getConfiguration S F tenantID stewardID with
      | .error .notFound => .ok none
      | .error (.other reason) => .error ("read device configuration: " ++ reason)
      | .ok config => .ok (some (.ofDevice tenantID stewardID config))

def resolveEffective : Except String (Option (Resolved V)) :=
  match C.resolveConfiguration S F scope tenantID stewardID with
  | .error _ => C.resolveDeviceLevelFallback S F tenantID stewardID
  | .ok effective => if effective.sourced then .ok (some effective) else .ok none

end Codec

/-- The values of a request context that bear on tenants. -/
structure RequestContext where
  scope : Option TenantScope
  tenantID : Option String
  system : Bool

inductive Restriction where
  | refused
  | unrestricted
  | confined (tenantID : String)
  deriving DecidableEq

def tenantRestriction (ctx : RequestContext) : Restriction :=
  match ctx.scope with
  | some .root => .unrestricted
  | some (.tenant path) => if path ≠ "" then .confined path else .refused
  | some .unset => .refused
  | none =>
    match ctx.tenantID with
    | some tenantID => if tenantID ≠ "" then .confined tenantID else .refused
    | none => if ctx.system then .unrestricted else .refused

def tenantGuardDenies (ctx : RequestContext) (stewardTenant : String) : Bool :=
  match tenantRestriction ctx with
  | .refused => true
  | .unrestricted => false
  | .confined tenantID => tenantID ≠ stewardTenant

inductive StatusCode where
  | ok | error | notFound | unauthorized
  deriving DecidableEq

structure ConfigResponse (P : Type*) where
  code : StatusCode
  message : String
  config : Option P := none
  version : String := ""

/-- What the service is wired to: the stewards that the controller knows, if it has a controller,
the modules that run on the controller, the conversion of messages and the version history. -/
structure ConfigurationService (V P : Type*) where
  codec : Codec V
  stewardTenant : Option (String → Option String)
  runsOnController : String → Bool
  toProto : StewardConfig V → Option P
  latestVersion : String → String → Option ℤ

def filterConfigByModules (config : StewardConfig V) (modules : List String) : StewardConfig V :=
  if modules = [] then config
  else { config with resources := config.resources.filter fun r => r.module ∈ modules }

namespace ConfigurationService

variable {P : Type*} (svc : ConfigurationService V P)

def dropControllerKindResources (config : StewardConfig V) : StewardConfig V :=
  { config with resources := config.resources.filter fun r => !svc.runsOnController r.module }

/-- The tenant that the configuration is stored under, or the answer that ends the request. -/
def requestTenant (ctx : RequestContext) (stewardID : String) :
    Except (ConfigResponse P) String :=
  match svc.stewardTenant with
  | some lookup =>
    match lookup stewardID with
    | none => .error { code := .notFound, message := "Steward not found" }
    | some tenantID =>
      if tenantGuardDenies ctx tenantID then
        .error { code := .unauthorized, message := "Cross-tenant access denied" }
      else if tenantID = "" then .error { code := .notFound, message := "Steward not found" }
      else .ok tenantID
  | none =>
    match ctx.tenantID with
    | none => .error { code := .notFound, message := "Steward not found" }
    | some tenantID =>
      if tenantID = "" then .error { code := .notFound, message := "Steward not found" }
      else .ok tenantID

def deliver (tenantID stewardID : String) (modules : List String) (e : Resolved V) :
    ConfigResponse P :=
  match svc.toProto (svc.dropControllerKindResources
      (filterConfigByModules e.effective.config modules)) with
  | none => { code := .error, message := "Failed to serialize configuration" }
  | some message =>
    { code := .ok
      message := "Configuration retrieved successfully"
      config := some message
      version := (svc.latestVersion tenantID stewardID).elim "unknown" fun v => "v" ++ toString v }

def getConfiguration (S : Storage V) (F : Faults) (ctx : RequestContext) (stewardID : String)
    (modules : List String) : Except String (ConfigResponse P) :=
  match svc.requestTenant ctx stewardID with
  | .error response => .ok response
  | .ok tenantID =>
    match svc.codec.resolveEffective S F (ctx.scope.getD .unset) tenantID stewardID with
    | .error reason => .error ("resolve configuration fallback: " ++ reason)
    | .ok none => .ok { code := .notFound, message := "No configuration found for steward" }
    | .ok (some e) => .ok (svc.deliver tenantID stewardID modules e)

end ConfigurationService

end Cfgms.Config
