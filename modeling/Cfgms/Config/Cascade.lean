import Cfgms.Config.Types

/-! # The inheritance cascade

One level after the other is applied to the effective configuration, which remembers for
each element the level that it came from and keeps an audit trail of the changes of security
posture that were refused or authorised.
-/

namespace Cfgms.Config

open List Ordered

structure InheritanceSource where
  level : ℤ
  tenantID : String
  configName : String
  version : ℤ
  updatedAt : ℤ
  source : String
  deriving DecidableEq

def levelMSP : ℤ := 0

/-- Why a level was not allowed to change the security posture. -/
inductive PostureRefusal where
  | scriptSigning (error : MergeError)
  | modeDowngrade (previous declared : ModuleTrustMode)
  | addsPublishers (added : ℕ)

def PostureRefusal.setting : PostureRefusal → String
  | .scriptSigning _ => "script_signing"
  | _ => "module_trust"

/-- An entry of the audit trail. A downgrade without a refusal was authorised. -/
structure PostureEvent where
  tenantID : String
  resourceID : String
  setting : String
  source : String
  refusal : Option PostureRefusal

structure EffectiveConfiguration (V : Type*) where
  config : StewardConfig V
  sources : String → Option InheritanceSource
  audit : List PostureEvent

structure ConfigLevel (V : Type*) where
  config : StewardConfig V
  source : InheritanceSource

variable {V : Type*}

namespace EffectiveConfiguration

def initial : EffectiveConfiguration V := ⟨.zero, fun _ => none, []⟩

def setSource (e : EffectiveConfiguration V) (path : String) (source : InheritanceSource) :
    EffectiveConfiguration V :=
  { e with sources := Function.update e.sources path (some source) }

/-- The loop that assigns one source under several paths. -/
def setSources (e : EffectiveConfiguration V) (paths : List String) (source : InheritanceSource) :
    EffectiveConfiguration V :=
  paths.foldl (fun e path => e.setSource path source) e

def setSettings (e : EffectiveConfiguration V) (settings : StewardSettings) :
    EffectiveConfiguration V :=
  { e with config := { e.config with steward := settings } }

def cfgDeclaredResourceID (l : ConfigLevel V) : String :=
  if l.config.steward.id ≠ "" then "steward:" ++ l.config.steward.id
  else "steward:" ++ l.source.configName

def refusePostureDowngrade (e : EffectiveConfiguration V) (l : ConfigLevel V)
    (refusal : PostureRefusal) : EffectiveConfiguration V :=
  { e with audit := e.audit ++ [⟨l.source.tenantID, cfgDeclaredResourceID l, refusal.setting,
      l.source.source, some refusal⟩] }

def recordPostureDowngradeAuthorized (e : EffectiveConfiguration V) (l : ConfigLevel V)
    (setting : String) : EffectiveConfiguration V :=
  { e with audit := e.audit ++ [⟨l.source.tenantID, cfgDeclaredResourceID l, setting,
      l.source.source, none⟩] }

/-- The list is rebuilt with an index of the names that it holds. -/
def mergeResources (effective declared : List (ResourceConfig V)) : List (ResourceConfig V) :=
  (declared.foldl (Indexed.insert ResourceConfig.name)
    (effective.foldl (Indexed.insert ResourceConfig.name) .empty)).items

def applyResources (e : EffectiveConfiguration V) (l : ConfigLevel V) :
    EffectiveConfiguration V :=
  let e := e.setSources (l.config.resources.map fun r => "resource." ++ r.name) l.source
  { e with config := { e.config with
      resources := mergeResources e.config.resources l.config.resources } }

/-- A setting that a level, where it declares it, writes over the inherited one. -/
structure Override where
  declared : Bool
  path : String
  write : StewardSettings → StewardSettings

def override (source : InheritanceSource) (e : EffectiveConfiguration V) (o : Override) :
    EffectiveConfiguration V :=
  if o.declared then (e.setSettings (o.write e.config.steward)).setSource o.path source else e

def generalOverrides (s : StewardSettings) : List Override :=
  [⟨s.id ≠ "", "steward.id", fun t => { t with id := s.id }⟩,
    ⟨s.modulePaths ≠ [], "steward.module_paths", fun t => { t with modulePaths := s.modulePaths }⟩,
    ⟨s.convergeInterval ≠ "", "steward.converge_interval",
      fun t => { t with convergeInterval := s.convergeInterval }⟩,
    ⟨s.driftMode ≠ .unset, "steward.drift_mode", fun t => { t with driftMode := s.driftMode }⟩]

def applyModuleDriftModes (e : EffectiveConfiguration V) (l : ConfigLevel V) :
    EffectiveConfiguration V :=
  let e := e.setSources
    (l.config.steward.moduleDriftModes.entries.map fun m => "steward.module_drift_modes." ++ m.1)
    l.source
  e.setSettings { e.config.steward with
    moduleDriftModes :=
      e.config.steward.moduleDriftModes.assignAll l.config.steward.moduleDriftModes }

def policyOverrides (s : StewardSettings) : List Override :=
  [⟨s.upgrade.desiredVersion ≠ "", "steward.upgrade.desired_version",
      fun t => { t with upgrade.desiredVersion := s.upgrade.desiredVersion }⟩,
    ⟨s.upgrade.allowDowngrade, "steward.upgrade.allow_downgrade",
      fun t => { t with upgrade.allowDowngrade := true }⟩,
    ⟨s.logging.level ≠ "", "steward.logging.level",
      fun t => { t with logging.level := s.logging.level }⟩,
    ⟨s.errorHandling.moduleLoadFailure ≠ .unset, "steward.error_handling.module_load_failure",
      fun t => { t with errorHandling.moduleLoadFailure := s.errorHandling.moduleLoadFailure }⟩,
    ⟨s.errorHandling.resourceFailure ≠ .unset, "steward.error_handling.resource_failure",
      fun t => { t with errorHandling.resourceFailure := s.errorHandling.resourceFailure }⟩,
    ⟨s.errorHandling.configurationError ≠ .unset, "steward.error_handling.configuration_error",
      fun t => { t with errorHandling.configurationError := s.errorHandling.configurationError }⟩,
    ⟨s.tenantDefaultTimezone ≠ "", "steward.tenant_default_timezone",
      fun t => { t with tenantDefaultTimezone := s.tenantDefaultTimezone }⟩,
    ⟨s.rebootWindow.isSome, "steward.reboot_window",
      fun t => { t with rebootWindow := s.rebootWindow }⟩]

def scriptSigningDeclared (c : ScriptSigningConfig) : Bool :=
  c.policy ≠ .unset || c.trustMode ≠ .unset || c.trustedKeys ≠ [] || c.allowPublicCA ||
    c.requireSignedAdhoc

def applyScriptSigning (e : EffectiveConfiguration V) (l : ConfigLevel V) :
    EffectiveConfiguration V :=
  if scriptSigningDeclared l.config.steward.scriptSigning then
    match mergeScriptSigningConfig e.config.steward.scriptSigning
        l.config.steward.scriptSigning with
    | .error error => e.refusePostureDowngrade l (.scriptSigning error)
    | .ok merged =>
      (e.setSettings { e.config.steward with scriptSigning := merged }).setSource
        "steward.script_signing" l.source
  else e

def applyModuleTrustMode (e : EffectiveConfiguration V) (l : ConfigLevel V) :
    EffectiveConfiguration V :=
  let declared := l.config.steward.moduleTrust
  if declared.mode ≠ .unset then
    let prevMode := e.config.steward.moduleTrust.mode
    let isDowngrade := prevMode ≠ .unset ∧
      moduleTrustModeLevel declared.mode < moduleTrustModeLevel prevMode
    if isDowngrade ∧ ¬ declared.authorizeDowngrade then
      e.refusePostureDowngrade l (.modeDowngrade prevMode declared.mode)
    else
      let e := if isDowngrade then e.recordPostureDowngradeAuthorized l "module_trust" else e
      (e.setSettings { e.config.steward with moduleTrust.mode := declared.mode }).setSource
        "steward.module_trust.mode" l.source
  else e

def applyAdditionalPublishers (e : EffectiveConfiguration V) (l : ConfigLevel V) :
    EffectiveConfiguration V :=
  let declared := l.config.steward.moduleTrust
  if declared.additionalPublishers ≠ [] then
    let prev := e.config.steward.moduleTrust.additionalPublishers
    let added := declared.additionalPublishers.countP (· ∉ prev)
    let widens := 0 < added ∧ (prev ≠ [] ∨ l.source.level ≠ levelMSP)
    if widens ∧ ¬ declared.authorizeDowngrade then
      e.refusePostureDowngrade l (.addsPublishers added)
    else
      let e := if widens then e.recordPostureDowngradeAuthorized l "module_trust" else e
      (e.setSettings { e.config.steward with
        moduleTrust.additionalPublishers := declared.additionalPublishers }).setSource
        "steward.module_trust.additional_publishers" l.source
  else e

def applyModules (e : EffectiveConfiguration V) (l : ConfigLevel V) : EffectiveConfiguration V :=
  let e := e.setSources (l.config.modules.entries.map fun m => "modules." ++ m.1) l.source
  { e with config := { e.config with modules := e.config.modules.assignAll l.config.modules } }

/-- Replace the first requirement of the same module, or append. -/
def mergeRequiredModule (required : List RequiredModule) (req : RequiredModule) :
    List RequiredModule :=
  (replaceFirst RequiredModule.name req required).getD (required ++ [req])

def applyRequiredModules (e : EffectiveConfiguration V) (l : ConfigLevel V) :
    EffectiveConfiguration V :=
  let e := e.setSources (l.config.requiredModules.map fun req => "required_modules." ++ req.name)
    l.source
  { e with config := { e.config with
      requiredModules :=
        l.config.requiredModules.foldl mergeRequiredModule e.config.requiredModules } }

def applySteward (e : EffectiveConfiguration V) (l : ConfigLevel V) : EffectiveConfiguration V :=
  let e := (generalOverrides l.config.steward).foldl (override l.source) e
  let e := e.applyModuleDriftModes l
  let e := (policyOverrides l.config.steward).foldl (override l.source) e
  let e := e.applyScriptSigning l
  let e := e.applyModuleTrustMode l
  e.applyAdditionalPublishers l

end EffectiveConfiguration

def applyConfigurationWithSource (e : EffectiveConfiguration V) (l : ConfigLevel V) :
    EffectiveConfiguration V :=
  (((e.applyResources l).applySteward l).applyModules l).applyRequiredModules l

def cascade (levels : List (ConfigLevel V)) : EffectiveConfiguration V :=
  levels.foldl applyConfigurationWithSource .initial

theorem cascade_concat (levels : List (ConfigLevel V)) (l : ConfigLevel V) :
    cascade (levels ++ [l]) = applyConfigurationWithSource (cascade levels) l := by
  simp [cascade]

namespace EffectiveConfiguration

variable {e e' e'' : EffectiveConfiguration V} {l : ConfigLevel V}

theorem setSources_eq (e : EffectiveConfiguration V) (paths : List String)
    (source : InheritanceSource) :
    e.setSources paths source = { e with
      sources := fun k => if k ∈ paths then some source else e.sources k } := by
  induction paths generalizing e with
  | nil => rfl
  | cons path paths ih =>
    have hstep : e.setSources (path :: paths) source =
        (e.setSource path source).setSources paths source := rfl
    rw [hstep, ih]
    congr 1
    funext k
    simp only [setSource, Function.update_apply, mem_cons]
    by_cases hk : k = path <;> simp [hk]

@[simp] theorem config_setSources (paths : List String) (source : InheritanceSource) :
    (e.setSources paths source).config = e.config := by rw [setSources_eq]

def IsSetting (path : String) : Prop := "steward.".toList <+: path.toList

instance (path : String) : Decidable (IsSetting path) := inferInstanceAs (Decidable (_ <+: _))

/-- Only settings, their sources and the audit trail differ. -/
structure SettingsOnly (e e' : EffectiveConfiguration V) : Prop where
  resources : e'.config.resources = e.config.resources
  modules : e'.config.modules = e.config.modules
  requiredModules : e'.config.requiredModules = e.config.requiredModules
  sources : ∀ k, ¬ IsSetting k → e'.sources k = e.sources k

namespace SettingsOnly

theorem refl (e : EffectiveConfiguration V) : SettingsOnly e e := ⟨rfl, rfl, rfl, fun _ _ => rfl⟩

theorem trans (h : SettingsOnly e e') (h' : SettingsOnly e' e'') : SettingsOnly e e'' where
  resources := h'.resources.trans h.resources
  modules := h'.modules.trans h.modules
  requiredModules := h'.requiredModules.trans h.requiredModules
  sources k hk := (h'.sources k hk).trans (h.sources k hk)

theorem setSettings (e : EffectiveConfiguration V) (settings : StewardSettings) :
    SettingsOnly e (e.setSettings settings) := ⟨rfl, rfl, rfl, fun _ _ => rfl⟩

theorem setSources {paths : List String} (h : ∀ path ∈ paths, IsSetting path)
    (source : InheritanceSource) : SettingsOnly e (e.setSources paths source) := by
  rw [setSources_eq]
  refine ⟨rfl, rfl, rfl, fun k hk => if_neg fun hmem => hk (h k hmem)⟩

theorem setSource {path : String} (h : IsSetting path) (source : InheritanceSource) :
    SettingsOnly e (e.setSource path source) := by
  have hall : ∀ p ∈ [path], IsSetting p := by simpa using h
  exact setSources hall source

theorem refusePostureDowngrade (refusal : PostureRefusal) :
    SettingsOnly e (e.refusePostureDowngrade l refusal) := ⟨rfl, rfl, rfl, fun _ _ => rfl⟩

theorem recordPostureDowngradeAuthorized (setting : String) :
    SettingsOnly e (e.recordPostureDowngradeAuthorized l setting) :=
  ⟨rfl, rfl, rfl, fun _ _ => rfl⟩

theorem write {path : String} (h : IsSetting path) (settings : StewardSettings)
    (source : InheritanceSource) :
    SettingsOnly e ((e.setSettings settings).setSource path source) :=
  (setSettings e settings).trans (setSource h source)

theorem overrides {os : List Override} (h : ∀ o ∈ os, IsSetting o.path)
    (source : InheritanceSource) : SettingsOnly e (os.foldl (override source) e) := by
  induction os generalizing e with
  | nil => exact .refl e
  | cons o os ih =>
    have ho : SettingsOnly e (override source e o) := by
      unfold override
      split
      · exact write (h o mem_cons_self) _ source
      · exact .refl e
    exact ho.trans (ih fun o' ho' => h o' (mem_cons_of_mem o ho'))

theorem applyModuleDriftModes : SettingsOnly e (e.applyModuleDriftModes l) := by
  refine (setSources (fun path hpath => ?_) l.source).trans (setSettings _ _)
  obtain ⟨m, -, rfl⟩ := List.mem_map.mp hpath
  rw [IsSetting, String.toList_append]
  exact List.IsPrefix.trans (by decide) (prefix_append _ _)

theorem applyScriptSigning : SettingsOnly e (e.applyScriptSigning l) := by
  unfold EffectiveConfiguration.applyScriptSigning
  split
  · split
    · exact refusePostureDowngrade _
    · exact write (by decide) _ l.source
  · exact .refl e

theorem applyModuleTrustMode : SettingsOnly e (e.applyModuleTrustMode l) := by
  unfold EffectiveConfiguration.applyModuleTrustMode
  dsimp only
  split
  · split
    · exact refusePostureDowngrade _
    · split
      · exact (recordPostureDowngradeAuthorized _).trans (write (by decide) _ l.source)
      · exact write (by decide) _ l.source
  · exact .refl e

theorem applyAdditionalPublishers : SettingsOnly e (e.applyAdditionalPublishers l) := by
  unfold EffectiveConfiguration.applyAdditionalPublishers
  dsimp only
  split
  · split
    · exact refusePostureDowngrade _
    · split
      · exact (recordPostureDowngradeAuthorized _).trans (write (by decide) _ l.source)
      · exact write (by decide) _ l.source
  · exact .refl e

end SettingsOnly

theorem isSetting_overrides (s : StewardSettings) :
    (∀ o ∈ generalOverrides s, IsSetting o.path) ∧ ∀ o ∈ policyOverrides s, IsSetting o.path := by
  simp only [generalOverrides, policyOverrides, forall_mem_cons, not_mem_nil,
    false_imp_iff, implies_true, and_true]
  decide +kernel

theorem SettingsOnly.applySteward : SettingsOnly e (e.applySteward l) := by
  obtain ⟨hgeneral, hpolicy⟩ := isSetting_overrides l.config.steward
  exact (overrides hgeneral l.source).trans <| applyModuleDriftModes.trans <|
    (overrides hpolicy l.source).trans <| applyScriptSigning.trans <|
    applyModuleTrustMode.trans applyAdditionalPublishers

end EffectiveConfiguration

end Cfgms.Config
