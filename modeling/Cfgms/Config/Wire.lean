import Cfgms.Config.Types
import Cfgms.Go.Duration

/-! # Delivery to the steward

The effective configuration is converted to a message, sent and converted back. The message
has no place for some of the settings that the cascade resolves, so those arrive unset.
-/

namespace Cfgms.Config

open Go

variable {V : Type*}

/-- The message types of the protobuf library. A resource configuration that can be converted
comes back as it was, and so does every nanosecond count of 64 bits. -/
structure Protobuf (V : Type*) where
  Struct : Type
  newStruct : V → Except String Struct
  asMap : Struct → V
  asMap_newStruct : ∀ v s, newStruct v = .ok s → asMap s = v
  Duration : Type
  newDuration : ℤ → Duration
  asDuration : Duration → ℤ
  asDuration_newDuration : ∀ d, -2 ^ 63 ≤ d → d < 2 ^ 63 → asDuration (newDuration d) = d

structure ProtoScriptSigning where
  policy : ScriptSigningPolicy
  trustMode : ScriptTrustMode
  trustedKeys : List TrustedKeyRef
  allowPublicCA : Bool

structure ProtoSettings (T : Type*) where
  id : String
  modulePaths : List String
  logging : Option LoggingConfig
  errorHandling : Option ErrorHandlingConfig
  secrets : Option (StringMap String)
  convergeInterval : Option T
  desiredVersion : String
  driftMode : DriftMode
  moduleDriftModes : StringMap DriftMode
  scriptSigning : Option ProtoScriptSigning

structure ProtoResource (S : Type*) where
  name : String
  module : String
  config : S

structure ProtoConfig (S T : Type*) where
  steward : ProtoSettings T
  resources : List (ProtoResource S)
  modules : StringMap String

inductive WireError where
  | configNil
  | protoNil
  | convergeInterval (text error : String)
  | resourceConfig (error : String)

def copyMap {α : Type*} (m : StringMap α) : StringMap α :=
  if m.entries ≠ [] then StringMap.empty.assignAll m else .empty

section Conversion

variable (pb : Protobuf V)

def intervalToProto (text : String) : Except WireError (Option pb.Duration) :=
  if text = "" then .ok none
  else
    match parseDuration text with
    | .error e => .error (.convergeInterval text e)
    | .ok d => .ok (some (pb.newDuration d))

def intervalFromProto : Option pb.Duration → String
  | none => ""
  | some d => String.ofList (durationText (pb.asDuration d))

def settingsToProto (s : StewardSettings) (interval : Option pb.Duration) :
    ProtoSettings pb.Duration where
  id := s.id
  modulePaths := s.modulePaths
  logging := some s.logging
  errorHandling := some s.errorHandling
  secrets := some ((StringMap.empty.set ("secrets_dir", s.secrets.secretsDir)).set
    ("provider", s.secrets.provider))
  convergeInterval := interval
  desiredVersion := s.upgrade.desiredVersion
  driftMode := s.driftMode
  moduleDriftModes := copyMap s.moduleDriftModes
  scriptSigning := some {
    policy := s.scriptSigning.policy
    trustMode := s.scriptSigning.trustMode
    trustedKeys := s.scriptSigning.trustedKeys
    allowPublicCA := s.scriptSigning.allowPublicCA }

def settingsFromProto (p : ProtoSettings pb.Duration) : StewardSettings :=
  { StewardSettings.zero with
    id := p.id
    modulePaths := p.modulePaths
    upgrade := { StewardSettings.zero.upgrade with desiredVersion := p.desiredVersion }
    driftMode := p.driftMode
    moduleDriftModes := copyMap p.moduleDriftModes
    logging := p.logging.getD StewardSettings.zero.logging
    errorHandling := p.errorHandling.getD StewardSettings.zero.errorHandling
    secrets :=
      match p.secrets with
      | none => StewardSettings.zero.secrets
      | some m => ⟨(m.get "secrets_dir").getD "", (m.get "provider").getD ""⟩
    convergeInterval := intervalFromProto pb p.convergeInterval
    scriptSigning :=
      match p.scriptSigning with
      | none => StewardSettings.zero.scriptSigning
      | some ps => ⟨ps.policy, ps.trustMode, ps.trustedKeys, ps.allowPublicCA, false⟩ }

def resourcesToProto : List (ResourceConfig V) → Except WireError (List (ProtoResource pb.Struct))
  | [] => .ok []
  | r :: rs =>
    match pb.newStruct r.config with
    | .error e => .error (.resourceConfig e)
    | .ok config =>
      match resourcesToProto rs with
      | .error e => .error e
      | .ok ps => .ok (⟨r.name, r.module, config⟩ :: ps)

def resourceFromProto (p : ProtoResource pb.Struct) : ResourceConfig V :=
  ⟨p.name, p.module, pb.asMap p.config⟩

def toProto : Option (StewardConfig V) → Except WireError (ProtoConfig pb.Struct pb.Duration)
  | none => .error .configNil
  | some config =>
    match intervalToProto pb config.steward.convergeInterval with
    | .error e => .error e
    | .ok interval =>
      match resourcesToProto pb config.resources with
      | .error e => .error e
      | .ok resources => .ok ⟨settingsToProto pb config.steward interval, resources, config.modules⟩

def fromProto : Option (ProtoConfig pb.Struct pb.Duration) → Except WireError (StewardConfig V)
  | none => .error .protoNil
  | some p => .ok {
      steward := settingsFromProto pb p.steward
      resources := p.resources.map (resourceFromProto pb)
      modules := p.modules
      requiredModules := [] }

end Conversion

def getConvergeInterval (c : StewardConfig V) : ℤ :=
  if c.steward.convergeInterval = "" then 30 * 60 * 10 ^ 9
  else
    match parseDuration c.steward.convergeInterval with
    | .error _ => 30 * 60 * 10 ^ 9
    | .ok d => if d ≤ 0 then 30 * 60 * 10 ^ 9 else d

theorem get_copyMap {α : Type*} (m : StringMap α) (k : String) : (copyMap m).get k = m.get k := by
  have hempty : (StringMap.empty : StringMap α).get k = none := rfl
  unfold copyMap
  split
  · rw [StringMap.get_assignAll, hempty, Option.or_none]
  rename_i hm
  rw [hempty, StringMap.get, not_not.mp hm]
  rfl

variable {pb : Protobuf V}

theorem resourcesFromProto {rs : List (ResourceConfig V)}
    {ps : List (ProtoResource pb.Struct)} (h : resourcesToProto pb rs = .ok ps) :
    ps.map (resourceFromProto pb) = rs := by
  revert h
  fun_induction resourcesToProto pb rs generalizing ps with rintro ⟨⟩
  | case1 => rfl
  | case4 r rs config hconfig ps' hps ih =>
    rw [List.map_cons, ih hps, resourceFromProto, pb.asMap_newStruct _ _ hconfig]

variable {interval : Option pb.Duration}

theorem intervalFromProto_eq {text : String} (h : intervalToProto pb text = .ok interval) :
    text = "" ∧ intervalFromProto pb interval = "" ∨
      text ≠ "" ∧ intervalFromProto pb interval ≠ "" ∧
        parseDuration (intervalFromProto pb interval) = parseDuration text := by
  revert h
  fun_cases intervalToProto pb text <;> rintro ⟨⟩
  · exact Or.inl ⟨‹_›, rfl⟩
  next htext d hd =>
  obtain ⟨hlo, hhi⟩ := parseDuration_range hd
  have hback : parseDuration (intervalFromProto pb (some (pb.newDuration d))) = .ok d := by
    rw [intervalFromProto, pb.asDuration_newDuration d hlo hhi]
    exact parseDuration_durationText hlo hhi
  refine Or.inr ⟨htext, fun hempty => ?_, hback.trans hd.symm⟩
  rw [hempty] at hback
  cases hback

/-- The configurations agree on what the cascade resolves and the steward reads. -/
structure Agrees (c c' : StewardConfig V) : Prop where
  driftMode : c'.steward.driftMode = c.steward.driftMode
  moduleDriftModes : ∀ k, c'.steward.moduleDriftModes.get k = c.steward.moduleDriftModes.get k
  upgrade : c'.steward.upgrade = c.steward.upgrade
  scriptSigning : c'.steward.scriptSigning = c.steward.scriptSigning
  moduleTrustMode : c'.steward.moduleTrust.mode = c.steward.moduleTrust.mode
  additionalPublishers : c'.steward.moduleTrust.additionalPublishers =
    c.steward.moduleTrust.additionalPublishers
  rebootWindow : c'.steward.rebootWindow = c.steward.rebootWindow
  tenantDefaultTimezone : c'.steward.tenantDefaultTimezone = c.steward.tenantDefaultTimezone
  requiredModules : c'.requiredModules = c.requiredModules
  errorHandling : c'.steward.errorHandling = c.steward.errorHandling
  convergeInterval : getConvergeInterval c' = getConvergeInterval c
  resources : c'.resources = c.resources
  modules : ∀ k, c'.modules.get k = c.modules.get k

/-- The settings that have no place in the message are not set. -/
structure OnlyCarried (c : StewardConfig V) : Prop where
  allowDowngrade : c.steward.upgrade.allowDowngrade = false
  requireSignedAdhoc : c.steward.scriptSigning.requireSignedAdhoc = false
  moduleTrustMode : c.steward.moduleTrust.mode = .unset
  additionalPublishers : c.steward.moduleTrust.additionalPublishers = []
  rebootWindow : c.steward.rebootWindow = none
  tenantDefaultTimezone : c.steward.tenantDefaultTimezone = ""
  requiredModules : c.requiredModules = []

theorem getConvergeInterval_fromProto {c c' : StewardConfig V}
    (h : intervalToProto pb c.steward.convergeInterval = .ok interval)
    (hc' : c'.steward.convergeInterval = intervalFromProto pb interval) :
    getConvergeInterval c' = getConvergeInterval c := by
  unfold getConvergeInterval
  rw [hc']
  rcases intervalFromProto_eq h with ⟨htext, htext'⟩ | ⟨htext, htext', hparse⟩
  · rw [if_pos htext', if_pos htext]
  · rw [if_neg htext', if_neg htext, hparse]

/-- A configuration that can be sent arrives whole exactly if it sets nothing that the message
does not carry. -/
theorem delivery_agrees_iff (pb : Protobuf V) {c : StewardConfig V}
    {p : ProtoConfig pb.Struct pb.Duration} (h : toProto pb (some c) = .ok p) :
    (∃ c', fromProto pb (some p) = .ok c' ∧ Agrees c c') ↔ OnlyCarried c := by
  rw [toProto] at h
  split at h
  · cases h
  next interval hinterval =>
  split at h <;> cases h
  next resources hresources =>
  constructor
  · rintro ⟨c', hc', hagrees⟩
    cases hc'
    exact {
      allowDowngrade := (congrArg UpgradeConfig.allowDowngrade hagrees.upgrade).symm
      requireSignedAdhoc :=
        (congrArg ScriptSigningConfig.requireSignedAdhoc hagrees.scriptSigning).symm
      moduleTrustMode := hagrees.moduleTrustMode.symm
      additionalPublishers := hagrees.additionalPublishers.symm
      rebootWindow := hagrees.rebootWindow.symm
      tenantDefaultTimezone := hagrees.tenantDefaultTimezone.symm
      requiredModules := hagrees.requiredModules.symm }
  · intro hc
    refine ⟨_, rfl, ?_⟩
    exact {
      driftMode := rfl
      moduleDriftModes := fun k => (get_copyMap _ k).trans (get_copyMap _ k)
      upgrade := by
        change (⟨false, c.steward.upgrade.desiredVersion⟩ : UpgradeConfig) = c.steward.upgrade
        rw [← hc.allowDowngrade]
      scriptSigning := by
        change { c.steward.scriptSigning with requireSignedAdhoc := false } =
          c.steward.scriptSigning
        rw [← hc.requireSignedAdhoc]
      moduleTrustMode := hc.moduleTrustMode.symm
      additionalPublishers := hc.additionalPublishers.symm
      rebootWindow := hc.rebootWindow.symm
      tenantDefaultTimezone := hc.tenantDefaultTimezone.symm
      requiredModules := hc.requiredModules.symm
      errorHandling := rfl
      convergeInterval := getConvergeInterval_fromProto hinterval rfl
      resources := resourcesFromProto hresources
      modules := fun _ => rfl }

def textMessages : Protobuf String where
  Struct := String
  newStruct := .ok
  asMap := id
  asMap_newStruct _ _ h := (Except.ok.inj h).symm
  Duration := PbDuration
  newDuration := .new
  asDuration := PbDuration.asDuration
  asDuration_newDuration _ hlo hhi := PbDuration.asDuration_new hlo hhi

def carriedConfig : StewardConfig String where
  steward := { StewardSettings.zero with
    id := "edge-1"
    convergeInterval := "90s"
    scriptSigning := ⟨.required, .trustedKeys, [⟨"ops", "aa", ""⟩], false, false⟩ }
  resources := [⟨"motd", "file", "/etc/motd"⟩]
  modules := .empty
  requiredModules := []

theorem delivery_agrees_carriedConfig : ∃ p c', toProto textMessages (some carriedConfig) = .ok p ∧
      fromProto textMessages (some p) = .ok c' ∧ Agrees carriedConfig c' := by
  have hsent : toProto textMessages (some carriedConfig) =
      .ok ⟨settingsToProto textMessages carriedConfig.steward (some (.new 90000000000)),
        [⟨"motd", "file", "/etc/motd"⟩], .empty⟩ := rfl
  obtain ⟨c', hc', hagrees⟩ :=
    (delivery_agrees_iff textMessages hsent).mpr ⟨rfl, rfl, rfl, rfl, rfl, rfl, rfl⟩
  exact ⟨_, c', hsent, hc', hagrees⟩

/-- A steward that must ask for signatures and verify publishers itself. -/
def guardedConfig : StewardConfig String where
  steward := { StewardSettings.zero with
    id := "edge-1"
    scriptSigning := ⟨.required, .trustedKeys, [⟨"ops", "aa", ""⟩], false, true⟩
    moduleTrust := ⟨.strict, ["acme"], false⟩
    upgrade := ⟨true, "v0.5.21"⟩ }
  resources := [⟨"motd", "file", "/etc/motd"⟩]
  modules := .empty
  requiredModules := [⟨"acme/firewall", "1.0.0"⟩]

theorem delivery_drops_guardedConfig : ∃ p c', toProto textMessages (some guardedConfig) = .ok p ∧
      fromProto textMessages (some p) = .ok c' ∧ ¬ Agrees guardedConfig c' ∧
      c'.steward.scriptSigning.requireSignedAdhoc = false ∧
      c'.steward.moduleTrust.mode = .unset ∧ c'.requiredModules = [] := by
  refine ⟨_, _, rfl, rfl, fun h => ?_, rfl, rfl, rfl⟩
  have hmode : ModuleTrustMode.unset = .strict := h.moduleTrustMode
  cases hmode

end Cfgms.Config
