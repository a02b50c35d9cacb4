import Cfgms.Go.Map
import Mathlib.Data.Int.Notation

/-! # Steward configurations

The configuration that a level of the cascade declares and that a steward receives. Settings
with named values are texts in the source, so each has a value for the empty text and one for
every text without a name. No function looks into the type `V` of resource configurations.
-/

namespace Cfgms.Config

open Go

inductive ScriptSigningPolicy where
  | unset
  | none
  | optional
  | required
  | other (text : String)
  deriving DecidableEq

inductive ScriptTrustMode where
  | unset
  | anyValid
  | trustedKeys
  | trustedKeysAndPublic
  | other (text : String)
  deriving DecidableEq

inductive ModuleTrustMode where
  | unset
  | strict
  | controller
  | bypass
  | other (text : String)
  deriving DecidableEq

inductive DriftMode where
  | unset
  | apply
  | monitor
  | other (text : String)
  deriving DecidableEq

inductive ErrorAction where
  | unset
  | continue
  | fail
  | warn
  | other (text : String)
  deriving DecidableEq

structure TrustedKeyRef where
  name : String
  thumbprint : String
  publicKeyRef : String
  deriving DecidableEq

structure ScriptSigningConfig where
  policy : ScriptSigningPolicy
  trustMode : ScriptTrustMode
  trustedKeys : List TrustedKeyRef
  allowPublicCA : Bool
  requireSignedAdhoc : Bool
  deriving DecidableEq

structure ModuleTrustConfig where
  mode : ModuleTrustMode
  additionalPublishers : List String
  authorizeDowngrade : Bool
  deriving DecidableEq

structure LoggingConfig where
  level : String
  deriving DecidableEq

structure UpgradeConfig where
  allowDowngrade : Bool
  desiredVersion : String
  deriving DecidableEq

structure ErrorHandlingConfig where
  moduleLoadFailure : ErrorAction
  resourceFailure : ErrorAction
  configurationError : ErrorAction
  deriving DecidableEq

structure SecretsConfig where
  secretsDir : String
  provider : String
  deriving DecidableEq

inductive Weekday where
  | sunday
  | monday
  | tuesday
  | wednesday
  | thursday
  | friday
  | saturday
  deriving DecidableEq

inductive Freq where
  | monthly
  | weekly
  | other (text : String)
  deriving DecidableEq

structure TimeOfDay where
  hour : ℤ
  minute : ℤ
  endOfDay : Bool
  deriving DecidableEq

structure Anchor where
  weekday : Weekday
  nth : ℤ
  deriving DecidableEq

structure Schedule where
  freq : Freq
  weekday : Weekday
  days : List Weekday
  nth : Option ℤ
  after : Option Anchor
  before : Option Anchor
  start : TimeOfDay
  finish : TimeOfDay
  deriving DecidableEq

structure RebootWindow where
  timezone : String
  schedules : List Schedule
  deriving DecidableEq

structure StewardSettings where
  id : String
  modulePaths : List String
  logging : LoggingConfig
  errorHandling : ErrorHandlingConfig
  secrets : SecretsConfig
  convergeInterval : String
  scriptSigning : ScriptSigningConfig
  moduleTrust : ModuleTrustConfig
  driftMode : DriftMode
  moduleDriftModes : StringMap DriftMode
  upgrade : UpgradeConfig
  tenantDefaultTimezone : String
  rebootWindow : Option RebootWindow

structure ResourceConfig (V : Type*) where
  name : String
  module : String
  config : V

structure RequiredModule where
  name : String
  version : String
  deriving DecidableEq

structure StewardConfig (V : Type*) where
  steward : StewardSettings
  resources : List (ResourceConfig V)
  modules : StringMap String
  requiredModules : List RequiredModule

def StewardSettings.zero : StewardSettings where
  id := ""
  modulePaths := []
  logging := ⟨""⟩
  errorHandling := ⟨.unset, .unset, .unset⟩
  secrets := ⟨"", ""⟩
  convergeInterval := ""
  scriptSigning := ⟨.unset, .unset, [], false, false⟩
  moduleTrust := ⟨.unset, [], false⟩
  driftMode := .unset
  moduleDriftModes := .empty
  upgrade := ⟨false, ""⟩
  tenantDefaultTimezone := ""
  rebootWindow := none

def StewardConfig.zero {V : Type*} : StewardConfig V := ⟨.zero, [], .empty, []⟩

/-- Higher is stricter; a policy without a name has no place. -/
def scriptSigningPolicyLevel : ScriptSigningPolicy → ℤ
  | .none => 0
  | .unset => 0
  | .optional => 1
  | .required => 2
  | .other _ => -1

def moduleTrustModeLevel : ModuleTrustMode → ℤ
  | .bypass => 0
  | .controller => 1
  | .unset => 1
  | .strict => 2
  | .other _ => -1

inductive MergeError where
  | invalidPolicy
  | loosenedPolicy (parent child : ScriptSigningPolicy)

/-- The policy that a merge checks: the child's, else the parent's, else none. -/
def mergedPolicy (parent child : ScriptSigningPolicy) : ScriptSigningPolicy :=
  let policy := if child = .unset then parent else child
  if policy = .unset then .none else policy

def mergeScriptSigningConfig (parent child : ScriptSigningConfig) :
    Except MergeError ScriptSigningConfig :=
  let policy := mergedPolicy parent.policy child.policy
  let parentLevel := scriptSigningPolicyLevel parent.policy
  let childLevel := scriptSigningPolicyLevel policy
  if parentLevel < 0 ∨ childLevel < 0 then .error .invalidPolicy
  else if childLevel < parentLevel then .error (.loosenedPolicy parent.policy child.policy)
  else .ok {
    policy := policy
    trustMode := if child.trustMode = .unset then parent.trustMode else child.trustMode
    trustedKeys :=
      if child.trustedKeys = [] ∧ parent.trustedKeys ≠ [] then parent.trustedKeys
      else child.trustedKeys
    allowPublicCA := child.allowPublicCA || parent.allowPublicCA
    requireSignedAdhoc := child.requireSignedAdhoc || parent.requireSignedAdhoc }

end Cfgms.Config
