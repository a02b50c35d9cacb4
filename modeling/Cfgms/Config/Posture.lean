import Cfgms.Config.Cascade

/-! # Security posture

How strict a configuration is: its module trust mode, its signing policy, the publishers that it
adds and the signatures that it accepts. A level that authorises no downgrade refuses most of what
would loosen this, but not a first declaration of a mode or the trust settings of scripts.
-/

namespace Cfgms.Config

open EffectiveConfiguration List

variable {V : Type*}

/-- A cryptographically valid signature: the thumbprints of its key and whether a public
authority vouches for it. -/
structure ScriptSignature where
  thumbprints : List String
  publicCA : Bool

section Trust

-- thumbprints are compared up to letter case
variable (fold : String → String)

def Trusted (keys : List TrustedKeyRef) (sig : ScriptSignature) : Prop :=
  ∃ tp ∈ sig.thumbprints, tp ≠ "" ∧ ∃ k ∈ keys, k.thumbprint ≠ "" ∧ fold k.thumbprint = fold tp

def Accepts (c : ScriptSigningConfig) (sig : ScriptSignature) : Prop :=
  match c.trustMode with
  | .anyValid => True
  | .unset => True
  | .trustedKeys => Trusted fold c.trustedKeys sig
  | .trustedKeysAndPublic =>
    Trusted fold c.trustedKeys sig ∨ c.allowPublicCA = true ∧ sig.publicCA = true
  | .other _ => False

def acceptsAll (c : ScriptSigningConfig) : Bool :=
  c.trustMode = .anyValid || c.trustMode = .unset

def listedKeys (c : ScriptSigningConfig) : List String :=
  if c.trustMode = .trustedKeys ∨ c.trustMode = .trustedKeysAndPublic then
    (c.trustedKeys.filter (·.thumbprint ≠ "")).map (fold ·.thumbprint)
  else []

def admitsPublic (c : ScriptSigningConfig) : Bool :=
  c.trustMode = .trustedKeysAndPublic && c.allowPublicCA

/-- The second trust settings go by fewer keys than the first. -/
def NarrowsTrust (c c' : ScriptSigningConfig) : Prop :=
  acceptsAll c = true ∨ acceptsAll c' = false ∧ listedKeys fold c' ⊆ listedKeys fold c ∧
    (admitsPublic c' = true → admitsPublic c = true)

variable {fold} {c c' : ScriptSigningConfig} {sig : ScriptSignature}

theorem accepts_iff : Accepts fold c sig ↔ acceptsAll c = true ∨
    (∃ tp ∈ sig.thumbprints, tp ≠ "" ∧ fold tp ∈ listedKeys fold c) ∨
    admitsPublic c = true ∧ sig.publicCA = true := by
  have htrusted : Trusted fold c.trustedKeys sig ↔ ∃ tp ∈ sig.thumbprints, tp ≠ "" ∧
      fold tp ∈ (c.trustedKeys.filter (·.thumbprint ≠ "")).map (fold ·.thumbprint) := by
    simp only [Trusted, mem_map, mem_filter, decide_eq_true_eq, and_assoc]
  cases hm : c.trustMode <;>
    simp [Accepts, acceptsAll, listedKeys, admitsPublic, hm, htrusted]

theorem accepts_imp_iff :
    (∀ sig, Accepts fold c' sig → Accepts fold c sig) ↔ NarrowsTrust fold c c' := by
  simp only [accepts_iff]
  constructor
  · intro h
    rw [NarrowsTrust, or_iff_not_imp_left]
    intro hall
    refine ⟨?_, fun x hx => ?_, fun hpub => ?_⟩
    · by_contra hall'
      simpa [hall] using h ⟨[], false⟩ (.inl (by simpa using hall'))
    · obtain ⟨tp, hne, rfl⟩ : ∃ tp, tp ≠ "" ∧ fold tp = x := by
        unfold listedKeys at hx
        split at hx
        · obtain ⟨k, hk, rfl⟩ := mem_map.mp hx
          exact ⟨k.thumbprint, by simpa using (mem_filter.mp hk).2, rfl⟩
        · cases hx
      simpa [hall, hne] using h ⟨[tp], false⟩ (.inr (.inl ⟨tp, by simp, hne, hx⟩))
    · simpa [hall] using h ⟨[], true⟩ (.inr (.inr ⟨hpub, rfl⟩))
  · rintro (hall | ⟨hall', hkeys, hpub⟩) sig hsig
    · exact .inl hall
    · rcases hsig with h | ⟨tp, htp, hne, hmem⟩ | ⟨hp, hs⟩
      · rw [hall'] at h
        cases h
      · exact .inr (.inl ⟨tp, htp, hne, hkeys hmem⟩)
      · exact .inr (.inr ⟨hpub hp, hs⟩)

end Trust

/-- Neither the script signing nor the module trust settings differ. -/
def SamePosture (s s' : StewardSettings) : Prop :=
  s'.scriptSigning = s.scriptSigning ∧ s'.moduleTrust = s.moduleTrust

theorem SamePosture.trans {s s' s'' : StewardSettings} (h : SamePosture s s')
    (h' : SamePosture s' s'') : SamePosture s s'' :=
  ⟨h'.1.trans h.1, h'.2.trans h.2⟩

theorem samePosture_write (s : StewardSettings) :
    (∀ o ∈ generalOverrides s, ∀ t, SamePosture t (o.write t)) ∧
      ∀ o ∈ policyOverrides s, ∀ t, SamePosture t (o.write t) := by
  simp [generalOverrides, policyOverrides, SamePosture]

theorem samePosture_overrides {os : List Override}
    (h : ∀ o ∈ os, ∀ t, SamePosture t (o.write t)) (source : InheritanceSource)
    (e : EffectiveConfiguration V) :
    SamePosture e.config.steward (os.foldl (override source) e).config.steward := by
  induction os generalizing e with
  | nil => exact ⟨rfl, rfl⟩
  | cons o os ih =>
    have ho : SamePosture e.config.steward (override source e o).config.steward := by
      unfold override
      split
      · exact h o mem_cons_self _
      · exact ⟨rfl, rfl⟩
    exact ho.trans (ih (fun o' ho' => h o' (mem_cons_of_mem o ho')) _)

def nextScriptSigning (prev declared : ScriptSigningConfig) : ScriptSigningConfig :=
  if scriptSigningDeclared declared then
    match mergeScriptSigningConfig prev declared with
    | .error _ => prev
    | .ok merged => merged
  else prev

def nextMode (prev : ModuleTrustMode) (declared : ModuleTrustConfig) : ModuleTrustMode :=
  if declared.mode = .unset then prev
  else if (prev ≠ .unset ∧ moduleTrustModeLevel declared.mode < moduleTrustModeLevel prev) ∧
    ¬ declared.authorizeDowngrade then prev
  else declared.mode

def nextPublishers (prev : List String) (declared : ModuleTrustConfig) (level : ℤ) :
    List String :=
  if declared.additionalPublishers = [] then prev
  else if (0 < declared.additionalPublishers.countP (· ∉ prev) ∧ (prev ≠ [] ∨ level ≠ levelMSP)) ∧
    ¬ declared.authorizeDowngrade then prev
  else declared.additionalPublishers

structure PostureAfter (s : StewardSettings) (l : ConfigLevel V) (s' : StewardSettings) :
    Prop where
  scriptSigning : s'.scriptSigning =
    nextScriptSigning s.scriptSigning l.config.steward.scriptSigning
  mode : s'.moduleTrust.mode = nextMode s.moduleTrust.mode l.config.steward.moduleTrust
  publishers : s'.moduleTrust.additionalPublishers =
    nextPublishers s.moduleTrust.additionalPublishers l.config.steward.moduleTrust l.source.level

variable (e : EffectiveConfiguration V)
variable (l : ConfigLevel V)

theorem applyScriptSigning_posture :
    (e.applyScriptSigning l).config.steward = { e.config.steward with
      scriptSigning :=
        nextScriptSigning e.config.steward.scriptSigning l.config.steward.scriptSigning } := by
  unfold applyScriptSigning nextScriptSigning
  split
  · cases mergeScriptSigningConfig e.config.steward.scriptSigning
      l.config.steward.scriptSigning <;> rfl
  · rfl

theorem applyModuleTrustMode_posture :
    (e.applyModuleTrustMode l).config.steward = { e.config.steward with
      moduleTrust.mode :=
        nextMode e.config.steward.moduleTrust.mode l.config.steward.moduleTrust } := by
  unfold applyModuleTrustMode nextMode
  dsimp only
  split_ifs <;> first | rfl | contradiction

theorem applyAdditionalPublishers_posture :
    (e.applyAdditionalPublishers l).config.steward = { e.config.steward with
      moduleTrust.additionalPublishers :=
        nextPublishers e.config.steward.moduleTrust.additionalPublishers
          l.config.steward.moduleTrust l.source.level } := by
  unfold applyAdditionalPublishers nextPublishers
  dsimp only
  split_ifs <;> first | rfl | contradiction

/-- No stage before the posture settings touches them. -/
theorem samePosture_stages : SamePosture e.config.steward
    ((policyOverrides l.config.steward).foldl (override l.source)
      (((generalOverrides l.config.steward).foldl (override l.source) e).applyModuleDriftModes
        l)).config.steward := by
  obtain ⟨hgeneral, hpolicy⟩ := samePosture_write l.config.steward
  have hdrift : ∀ e : EffectiveConfiguration V,
      SamePosture e.config.steward (e.applyModuleDriftModes l).config.steward := fun e => by
    simp [applyModuleDriftModes, setSettings, SamePosture]
  exact (samePosture_overrides hgeneral l.source e).trans <|
    (hdrift _).trans (samePosture_overrides hpolicy l.source _)

theorem postureAfter_applySteward :
    PostureAfter e.config.steward l (e.applySteward l).config.steward := by
  obtain ⟨hsigning, htrust⟩ := samePosture_stages e l
  rw [applySteward, applyAdditionalPublishers_posture, applyModuleTrustMode_posture,
    applyScriptSigning_posture]
  refine ⟨?_, ?_, ?_⟩
  · rw [← hsigning]
  all_goals rw [← htrust]

theorem postureAfter_apply :
    PostureAfter e.config.steward l (applyConfigurationWithSource e l).config.steward := by
  have hlists : (applyConfigurationWithSource e l).config.steward =
      ((e.applyResources l).applySteward l).config.steward := by
    simp [applyConfigurationWithSource, applyRequiredModules, applyModules]
  have hresources : (e.applyResources l).config.steward = e.config.steward := by
    simp [applyResources]
  rw [hlists, ← hresources]
  exact postureAfter_applySteward _ l

structure AtLeastAsStrict (fold : String → String) (s s' : StewardSettings) : Prop where
  mode : moduleTrustModeLevel s.moduleTrust.mode ≤ moduleTrustModeLevel s'.moduleTrust.mode
  policy : scriptSigningPolicyLevel s.scriptSigning.policy ≤
    scriptSigningPolicyLevel s'.scriptSigning.policy
  adhoc : s.scriptSigning.requireSignedAdhoc = true → s'.scriptSigning.requireSignedAdhoc = true
  signatures : ∀ sig, Accepts fold s'.scriptSigning sig → Accepts fold s.scriptSigning sig

/-- The level's policy is not refused: it inherits a known policy or does not go below it. -/
def PolicyAdmitted (prev declared : ScriptSigningConfig) : Prop :=
  0 ≤ scriptSigningPolicyLevel prev.policy ∧ (declared.policy = .unset ∨
    scriptSigningPolicyLevel prev.policy ≤ scriptSigningPolicyLevel declared.policy)

/-- The keys that the level lists, or where it lists none the ones before, were gone by before. -/
def KeysKept (fold : String → String) (prev declared : ScriptSigningConfig) : Prop :=
  ∀ k ∈ (if declared.trustedKeys = [] then prev.trustedKeys else declared.trustedKeys),
    k.thumbprint ≠ "" → fold k.thumbprint ∈ listedKeys fold prev

/-- Public authorities are allowed, now or before, only if they were admitted before. -/
def PublicKept (prev declared : ScriptSigningConfig) : Prop :=
  declared.allowPublicCA = true ∨ prev.allowPublicCA = true → admitsPublic prev = true

/-- What a level may declare over trust settings that do not accept everything. -/
def TrustKept (fold : String → String) (prev declared : ScriptSigningConfig) : Prop :=
  match declared.trustMode, prev.trustMode with
  | .anyValid, _ => False
  | .other _, _ => True
  | .trustedKeys, _ => KeysKept fold prev declared
  | .trustedKeysAndPublic, _ => KeysKept fold prev declared ∧ PublicKept prev declared
  | .unset, .trustedKeys => KeysKept fold prev declared
  | .unset, .trustedKeysAndPublic => KeysKept fold prev declared ∧ PublicKept prev declared
  | .unset, _ => True

/-- What a level has to keep to: a first mode is not below the default, and script signing
settings that are not refused trust no signer whom the inherited ones do not. -/
structure Tightens (fold : String → String) (s declared : StewardSettings) : Prop where
  mode : s.moduleTrust.mode = .unset →
    moduleTrustModeLevel .unset ≤ moduleTrustModeLevel declared.moduleTrust.mode
  trust : scriptSigningDeclared declared.scriptSigning = true →
    PolicyAdmitted s.scriptSigning declared.scriptSigning →
    acceptsAll s.scriptSigning = true ∨ TrustKept fold s.scriptSigning declared.scriptSigning

variable {fold : String → String} {prev declared merged : ScriptSigningConfig}

theorem policyLevel_mergedPolicy (p c : ScriptSigningPolicy) :
    scriptSigningPolicyLevel (mergedPolicy p c) =
      if c = .unset then scriptSigningPolicyLevel p else scriptSigningPolicyLevel c := by
  by_cases hc : c = .unset <;> by_cases hp : p = .unset <;>
    simp [mergedPolicy, hc, hp, scriptSigningPolicyLevel]

theorem policyAdmitted_iff (prev declared : ScriptSigningConfig) : PolicyAdmitted prev declared ↔
      ¬ (scriptSigningPolicyLevel prev.policy < 0 ∨
        scriptSigningPolicyLevel (mergedPolicy prev.policy declared.policy) < 0) ∧
      ¬ scriptSigningPolicyLevel (mergedPolicy prev.policy declared.policy) <
        scriptSigningPolicyLevel prev.policy := by
  rw [policyLevel_mergedPolicy, PolicyAdmitted]
  by_cases hd : declared.policy = .unset
  · simp [hd]
  · simp only [hd, if_false, false_or]
    omega

/-- A merge that is not refused: what the level leaves open is inherited, and what it declares
overrides. -/
theorem mergeScriptSigningConfig_eq_ok :
    mergeScriptSigningConfig prev declared = .ok merged ↔ PolicyAdmitted prev declared ∧
      merged = {
        policy := mergedPolicy prev.policy declared.policy
        trustMode :=
          if declared.trustMode = .unset then prev.trustMode else declared.trustMode
        trustedKeys :=
          if declared.trustedKeys = [] then prev.trustedKeys else declared.trustedKeys
        allowPublicCA := declared.allowPublicCA || prev.allowPublicCA
        requireSignedAdhoc := declared.requireSignedAdhoc || prev.requireSignedAdhoc } := by
  have hkeys : (if declared.trustedKeys = [] ∧ prev.trustedKeys ≠ [] then prev.trustedKeys
      else declared.trustedKeys) =
      if declared.trustedKeys = [] then prev.trustedKeys else declared.trustedKeys := by
    by_cases hd : declared.trustedKeys = [] <;> by_cases hp : prev.trustedKeys = [] <;>
      simp [hd, hp]
  have hadmitted := policyAdmitted_iff prev declared
  unfold mergeScriptSigningConfig
  dsimp only
  rw [hkeys]
  split
  · rename_i hinvalid
    exact iff_of_false (by simp) fun h => (hadmitted.mp h.1).1 hinvalid
  rename_i hvalid
  split
  · rename_i hloose
    exact iff_of_false (by simp) fun h => (hadmitted.mp h.1).2 hloose
  rename_i hkept
  rw [Except.ok.injEq, eq_comm, iff_and_self]
  exact fun _ => hadmitted.mpr ⟨hvalid, hkept⟩

theorem mergeScriptSigningConfig_strict (h : mergeScriptSigningConfig prev declared = .ok merged) :
    scriptSigningPolicyLevel prev.policy ≤ scriptSigningPolicyLevel merged.policy ∧
      (prev.requireSignedAdhoc = true → merged.requireSignedAdhoc = true) := by
  obtain ⟨⟨-, hpolicy⟩, rfl⟩ := mergeScriptSigningConfig_eq_ok.mp h
  refine ⟨?_, fun hadhoc => by simp [hadhoc]⟩
  rw [policyLevel_mergedPolicy]
  split
  · exact Int.le_refl _
  · exact hpolicy.resolve_left ‹_›

theorem keysKept_iff : KeysKept fold prev declared ↔
    ((if declared.trustedKeys = [] then prev.trustedKeys else declared.trustedKeys).filter
      (·.thumbprint ≠ "")).map (fold ·.thumbprint) ⊆ listedKeys fold prev := by
  simp only [KeysKept, List.subset_def, forall_mem_map, mem_filter, decide_eq_true_eq, and_imp]

theorem narrowsTrust_merge_iff (h : mergeScriptSigningConfig prev declared = .ok merged) :
    NarrowsTrust fold prev merged ↔ acceptsAll prev = true ∨ TrustKept fold prev declared := by
  obtain ⟨-, rfl⟩ := mergeScriptSigningConfig_eq_ok.mp h
  refine or_congr_right' fun hall => ?_
  cases hd : declared.trustMode <;> cases hp : prev.trustMode <;>
    simp_all [acceptsAll, TrustKept, keysKept_iff, PublicKept, admitsPublic, listedKeys]

theorem nextScriptSigning_strict (prev declared : ScriptSigningConfig) :
    scriptSigningPolicyLevel prev.policy ≤
        scriptSigningPolicyLevel (nextScriptSigning prev declared).policy ∧
      (prev.requireSignedAdhoc = true →
        (nextScriptSigning prev declared).requireSignedAdhoc = true) := by
  unfold nextScriptSigning
  split
  · cases h : mergeScriptSigningConfig prev declared with
    | error e => exact ⟨Int.le_refl _, id⟩
    | ok merged => exact mergeScriptSigningConfig_strict h
  · exact ⟨Int.le_refl _, id⟩

theorem narrowsTrust_nextScriptSigning_iff :
    NarrowsTrust fold prev (nextScriptSigning prev declared) ↔
      (scriptSigningDeclared declared = true → PolicyAdmitted prev declared →
        acceptsAll prev = true ∨ TrustKept fold prev declared) := by
  have hrefl : NarrowsTrust fold prev prev := accepts_imp_iff.mp fun _ h => h
  unfold nextScriptSigning
  by_cases hd : scriptSigningDeclared declared = true
  · rw [if_pos hd]
    by_cases hpolicy : PolicyAdmitted prev declared
    · have hok := mergeScriptSigningConfig_eq_ok.mpr ⟨hpolicy, rfl⟩
      rw [hok]
      simp only [hd, hpolicy, true_imp_iff]
      exact narrowsTrust_merge_iff hok
    · cases h : mergeScriptSigningConfig prev declared with
      | error e => simp [hpolicy, hrefl]
      | ok merged => exact absurd (mergeScriptSigningConfig_eq_ok.mp h).1 hpolicy
  · simp [hd, hrefl]

variable {declared : ModuleTrustConfig}

theorem nextMode_strict_iff {prev : ModuleTrustMode} (h : declared.authorizeDowngrade = false) :
    moduleTrustModeLevel prev ≤ moduleTrustModeLevel (nextMode prev declared) ↔
      (prev = .unset → moduleTrustModeLevel .unset ≤ moduleTrustModeLevel declared.mode) := by
  unfold nextMode
  by_cases hm : declared.mode = .unset
  · simp [hm]
  rw [if_neg hm]
  by_cases hp : prev = .unset
  · simp [hp]
  by_cases hlt : moduleTrustModeLevel declared.mode < moduleTrustModeLevel prev
  · simp [hp, hlt, h]
  · simpa [hp, hlt] using Int.not_lt.mp hlt

theorem nextPublishers_subset {prev : List String} {level : ℤ}
    (h : declared.authorizeDowngrade = false) (hlevel : level ≠ levelMSP) :
    nextPublishers prev declared level ⊆ prev := by
  unfold nextPublishers
  split
  · exact List.Subset.refl prev
  split
  · exact List.Subset.refl prev
  rename_i hwidens
  intro p hp
  by_contra hnew
  refine hwidens ⟨⟨?_, .inr hlevel⟩, by simp [h]⟩
  exact countP_pos_iff.mpr ⟨p, hp, by simpa using hnew⟩

theorem atLeastAsStrict_iff {e : EffectiveConfiguration V} {l : ConfigLevel V}
    (h : l.config.steward.moduleTrust.authorizeDowngrade = false) :
    AtLeastAsStrict fold e.config.steward (applyConfigurationWithSource e l).config.steward ↔
      Tightens fold e.config.steward l.config.steward := by
  obtain ⟨hsigning, hmode, -⟩ := postureAfter_apply e l
  constructor
  · rintro ⟨hm, -, -, hsig⟩
    rw [hmode, nextMode_strict_iff h] at hm
    rw [hsigning, accepts_imp_iff, narrowsTrust_nextScriptSigning_iff] at hsig
    exact ⟨hm, hsig⟩
  · rintro ⟨hm, htrust⟩
    obtain ⟨hpolicy, hadhoc⟩ := nextScriptSigning_strict e.config.steward.scriptSigning
      l.config.steward.scriptSigning
    refine ⟨?_, ?_, ?_, ?_⟩
    · rwa [hmode, nextMode_strict_iff h]
    · rwa [hsigning]
    · rwa [hsigning]
    · rwa [hsigning, accepts_imp_iff, narrowsTrust_nextScriptSigning_iff]

/-- Without authorised downgrades the posture never loosens from one level to the next exactly
if every level after the first keeps to its part. -/
theorem posture_tightens_iff (fold : String → String) (levels : List (ConfigLevel V))
    (h : ∀ l ∈ levels, l.config.steward.moduleTrust.authorizeDowngrade = false) :
    (∀ before l after, levels = before ++ l :: after →
      (l.source.level ≠ levelMSP →
        (cascade (before ++ [l])).config.steward.moduleTrust.additionalPublishers ⊆
          (cascade before).config.steward.moduleTrust.additionalPublishers) ∧
      (before ≠ [] → AtLeastAsStrict fold (cascade before).config.steward
        (cascade (before ++ [l])).config.steward)) ↔
    ∀ before l after, levels = before ++ l :: after → before ≠ [] →
      Tightens fold (cascade before).config.steward l.config.steward := by
  have hauth : ∀ before l after, levels = before ++ l :: after →
      l.config.steward.moduleTrust.authorizeDowngrade = false := by
    rintro before l after rfl
    exact h l (by simp)
  constructor
  · intro hall before l after hl hne
    have hstrict := (hall before l after hl).2 hne
    rwa [cascade_concat, atLeastAsStrict_iff (hauth before l after hl)] at hstrict
  · intro hall before l after hl
    have hno := hauth before l after hl
    rw [cascade_concat]
    refine ⟨fun hlevel => ?_, fun hne => (atLeastAsStrict_iff hno).mpr (hall before l after hl hne)⟩
    rw [(postureAfter_apply (cascade before) l).publishers]
    exact nextPublishers_subset hno hlevel

def postureLevel (level : ℤ) (signing : ScriptSigningConfig) (trust : ModuleTrustConfig) :
    ConfigLevel Unit where
  config := { StewardConfig.zero with
    steward := { StewardSettings.zero with scriptSigning := signing, moduleTrust := trust } }
  source := ⟨level, "tenant", "policy", 1, 0, "Level"⟩

def oneKey : ScriptSigningConfig := ⟨.required, .trustedKeys, [⟨"ops", "aa", ""⟩], false, false⟩

/-- A second level that asks for signatures on ad-hoc scripts as well. -/
def tightenedLevels : List (ConfigLevel Unit) :=
  [postureLevel 0 oneKey ⟨.strict, ["acme"], false⟩,
    postureLevel 1 ⟨.unset, .unset, [], false, true⟩ ⟨.unset, [], false⟩]

theorem posture_tightens_tightenedLevels :
    AtLeastAsStrict id (cascade (tightenedLevels.take 1)).config.steward
      (cascade tightenedLevels).config.steward := by
  refine (((posture_tightens_iff id tightenedLevels (by decide)).mpr ?_)
    (tightenedLevels.take 1) _ [] rfl).2 (by simp [tightenedLevels])
  intro before l after hl hne
  rcases before with _ | ⟨first, _ | ⟨second, before⟩⟩
  · exact absurd rfl hne
  · obtain ⟨rfl, hrest⟩ := List.cons.inj hl
    obtain ⟨rfl, -⟩ := List.cons.inj hrest
    refine ⟨fun hmode => absurd hmode (by decide), fun _ _ => .inr ?_⟩
    have hkept : KeysKept id oneKey ⟨.unset, .unset, [], false, true⟩ := by
      simp [KeysKept, oneKey, listedKeys]
    exact hkept
  · have hlen := congrArg List.length hl
    simp [tightenedLevels] at hlen

def anyValidLevels : List (ConfigLevel Unit) :=
  [postureLevel 0 oneKey ⟨.unset, [], false⟩,
    postureLevel 1 ⟨.unset, .anyValid, [], false, false⟩ ⟨.unset, [], false⟩]

def bypassLevels : List (ConfigLevel Unit) :=
  [postureLevel 0 oneKey ⟨.unset, [], false⟩,
    postureLevel 1 ⟨.unset, .unset, [], false, false⟩ ⟨.bypass, [], false⟩]

theorem posture_loosened : ¬ AtLeastAsStrict id (cascade (anyValidLevels.take 1)).config.steward
        (cascade anyValidLevels).config.steward ∧
      ¬ AtLeastAsStrict id (cascade (bypassLevels.take 1)).config.steward
        (cascade bypassLevels).config.steward := by
  constructor
  · intro h
    have hsig := h.signatures ⟨[], false⟩ trivial
    obtain ⟨tp, htp, -⟩ : Trusted id oneKey.trustedKeys ⟨[], false⟩ := hsig
    cases htp
  · intro h
    exact absurd h.mode (by decide)

end Cfgms.Config
