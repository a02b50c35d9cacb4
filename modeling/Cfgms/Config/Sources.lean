import Cfgms.Config.Posture
import Mathlib.Data.List.Induction

/-! # Recorded sources

The service takes an effective configuration without a single recorded source for an absent
one. A cascade records a source exactly if one of its levels would record one on its own.
-/

namespace Cfgms.Config

variable {V : Type*}

namespace EffectiveConfiguration

variable {e : EffectiveConfiguration V} {l : ConfigLevel V}

def HasSource (e : EffectiveConfiguration V) : Prop := ∃ k, (e.sources k).isSome

variable {source : InheritanceSource}

theorem hasSource_setSources {paths : List String} :
    (e.setSources paths source).HasSource ↔ e.HasSource ∨ paths ≠ [] := by
  rw [setSources_eq]
  constructor
  · rintro ⟨k, hk⟩
    by_cases hmem : k ∈ paths
    · exact .inr (List.ne_nil_of_mem hmem)
    · exact .inl ⟨k, by simpa [hmem] using hk⟩
  · rintro (⟨k, hk⟩ | hne)
    · refine ⟨k, ?_⟩
      dsimp only
      split
      · rfl
      · exact hk
    · obtain ⟨k, hk⟩ := List.exists_mem_of_ne_nil paths hne
      exact ⟨k, by simp [hk]⟩

theorem hasSource_setSource (path : String) (source : InheritanceSource) :
    (e.setSource path source).HasSource := by
  apply Exists.intro path
  simp [setSource]

theorem hasSource_override {o : Override} :
    (override source e o).HasSource ↔ e.HasSource ∨ o.declared = true := by
  unfold override
  split
  · next h => exact iff_of_true (hasSource_setSource _ _) (.inr h)
  · next h => simp [h]

theorem hasSource_overrides {os : List Override} :
    (os.foldl (override source) e).HasSource ↔ e.HasSource ∨ os.any Override.declared = true := by
  induction os generalizing e with
  | nil => simp
  | cons o os ih => rw [List.foldl_cons, ih, hasSource_override, List.any_cons, Bool.or_eq_true,
      or_assoc]

def writesScriptSigning (s : StewardSettings) (l : ConfigLevel V) : Bool :=
  scriptSigningDeclared l.config.steward.scriptSigning &&
    (mergeScriptSigningConfig s.scriptSigning l.config.steward.scriptSigning).isOk

def writesMode (s : StewardSettings) (l : ConfigLevel V) : Bool :=
  let declared := l.config.steward.moduleTrust
  declared.mode ≠ .unset ∧ ¬ ((s.moduleTrust.mode ≠ .unset ∧
    moduleTrustModeLevel declared.mode < moduleTrustModeLevel s.moduleTrust.mode) ∧
    ¬ declared.authorizeDowngrade)

def writesPublishers (s : StewardSettings) (l : ConfigLevel V) : Bool :=
  let declared := l.config.steward.moduleTrust
  let prev := s.moduleTrust.additionalPublishers
  declared.additionalPublishers ≠ [] ∧
    ¬ ((0 < declared.additionalPublishers.countP (· ∉ prev) ∧
      (prev ≠ [] ∨ l.source.level ≠ levelMSP)) ∧ ¬ declared.authorizeDowngrade)

def writesPosture (s : StewardSettings) (l : ConfigLevel V) : Bool :=
  writesScriptSigning s l || writesMode s l || writesPublishers s l

/-- The elements that are merged without regard to the levels before. -/
def writesElements (l : ConfigLevel V) : Bool :=
  !l.config.resources.isEmpty || (generalOverrides l.config.steward).any Override.declared ||
    !l.config.steward.moduleDriftModes.entries.isEmpty ||
    (policyOverrides l.config.steward).any Override.declared ||
    !l.config.modules.entries.isEmpty || !l.config.requiredModules.isEmpty

/-- Whether a level, applied to the given settings, is the source of anything. -/
def records (s : StewardSettings) (l : ConfigLevel V) : Bool :=
  writesElements l || writesPosture s l

theorem hasSource_applyScriptSigning : (e.applyScriptSigning l).HasSource ↔
    e.HasSource ∨ writesScriptSigning e.config.steward l = true := by
  unfold applyScriptSigning writesScriptSigning
  split
  · next hdeclared =>
    cases hmerge : mergeScriptSigningConfig e.config.steward.scriptSigning
        l.config.steward.scriptSigning with
    | error error => simp [hdeclared, Except.isOk, Except.toBool, refusePostureDowngrade, HasSource]
    | ok merged =>
      simp only [hdeclared, Except.isOk, Except.toBool, Bool.and_self, or_true, iff_true]
      exact hasSource_setSource _ _
  · next hdeclared => simp [hdeclared]

theorem hasSource_ite {p q : Prop} [Decidable p] [Decidable q] {e₁ e₂ : EffectiveConfiguration V}
    (hrefused : e₁.HasSource ↔ e.HasSource) (hwritten : e₂.HasSource) :
    (if p then if q then e₁ else e₂ else e).HasSource ↔
      e.HasSource ∨ decide (p ∧ ¬ q) = true := by
  split_ifs with hp hq
  · simp [hrefused, hq]
  · simp [hwritten, hp, hq]
  · simp [hp]

theorem hasSource_applyModuleTrustMode : (e.applyModuleTrustMode l).HasSource ↔
    e.HasSource ∨ writesMode e.config.steward l = true :=
  hasSource_ite Iff.rfl (hasSource_setSource _ _)

theorem hasSource_applyAdditionalPublishers : (e.applyAdditionalPublishers l).HasSource ↔
    e.HasSource ∨ writesPublishers e.config.steward l = true :=
  hasSource_ite Iff.rfl (hasSource_setSource _ _)

theorem hasSource_setSources_map {α : Type*} {items : List α} {path : α → String} :
    (e.setSources (items.map path) source).HasSource ↔ e.HasSource ∨ items ≠ [] := by
  rw [hasSource_setSources, ne_eq, List.map_eq_nil_iff]

theorem hasSource_applyModuleDriftModes : (e.applyModuleDriftModes l).HasSource ↔
    e.HasSource ∨ l.config.steward.moduleDriftModes.entries ≠ [] := hasSource_setSources_map

theorem hasSource_applyResources : (e.applyResources l).HasSource ↔
    e.HasSource ∨ l.config.resources ≠ [] := hasSource_setSources_map

theorem hasSource_applyModules : (e.applyModules l).HasSource ↔
    e.HasSource ∨ l.config.modules.entries ≠ [] := hasSource_setSources_map

theorem hasSource_applyRequiredModules : (e.applyRequiredModules l).HasSource ↔
    e.HasSource ∨ l.config.requiredModules ≠ [] := hasSource_setSources_map

/-- The settings that decide which posture a level may write are the same. -/
structure AlikePosture (s s' : StewardSettings) : Prop where
  scriptSigning : s'.scriptSigning = s.scriptSigning
  mode : s'.moduleTrust.mode = s.moduleTrust.mode
  publishers : s'.moduleTrust.additionalPublishers = s.moduleTrust.additionalPublishers

variable {s s' : StewardSettings}

theorem writesPosture_congr (h : AlikePosture s s') : writesPosture s' l = writesPosture s l := by
  rw [writesPosture, writesPosture, writesScriptSigning, writesScriptSigning, writesMode,
    writesMode, writesPublishers, writesPublishers, h.scriptSigning, h.mode, h.publishers]

theorem alikePosture_of_not_writesPosture (h : PostureAfter s l s')
    (hnot : writesPosture s l = false) : AlikePosture s s' := by
  simp only [writesPosture, Bool.or_eq_false_iff] at hnot
  obtain ⟨⟨hsigning, hmode⟩, hpublishers⟩ := hnot
  constructor
  · rw [h.scriptSigning]
    unfold nextScriptSigning
    split
    · next hdeclared =>
      cases hmerge : mergeScriptSigningConfig s.scriptSigning l.config.steward.scriptSigning with
      | error error => rfl
      | ok merged =>
        rw [writesScriptSigning, hdeclared, hmerge] at hsigning
        cases hsigning
    · rfl
  · rw [h.mode]
    unfold nextMode
    split
    · rfl
    next hdeclared =>
    apply if_pos
    by_contra hpermitted
    exact of_decide_eq_false hmode ⟨hdeclared, hpermitted⟩
  · rw [h.publishers]
    unfold nextPublishers
    split
    · rfl
    next hdeclared =>
    apply if_pos
    by_contra hpermitted
    exact of_decide_eq_false hpublishers ⟨hdeclared, hpermitted⟩

theorem hasSource_applySteward : (e.applySteward l).HasSource ↔
    e.HasSource ∨ (generalOverrides l.config.steward).any Override.declared = true ∨
      l.config.steward.moduleDriftModes.entries ≠ [] ∨
      (policyOverrides l.config.steward).any Override.declared = true ∨
      writesPosture e.config.steward l = true := by
  obtain ⟨hsigning, htrust⟩ := samePosture_stages e l
  rw [← writesPosture_congr ⟨hsigning, by rw [htrust], by rw [htrust]⟩, applySteward,
    hasSource_applyAdditionalPublishers, hasSource_applyModuleTrustMode,
    hasSource_applyScriptSigning, hasSource_overrides, hasSource_applyModuleDriftModes,
    hasSource_overrides, applyModuleTrustMode_posture, applyScriptSigning_posture]
  simp only [writesPosture, Bool.or_eq_true, or_assoc]
  rfl

theorem hasSource_apply : (applyConfigurationWithSource e l).HasSource ↔
    e.HasSource ∨ records e.config.steward l = true := by
  have hsteward : (e.applyResources l).config.steward = e.config.steward := by
    simp [applyResources]
  rw [applyConfigurationWithSource, hasSource_applyRequiredModules, hasSource_applyModules,
    hasSource_applySteward, hasSource_applyResources, hsteward, records, writesElements]
  simp only [Bool.or_eq_true, Bool.not_eq_true', List.isEmpty_eq_false_iff, ne_eq]
  tauto

end EffectiveConfiguration

open List EffectiveConfiguration

/-- Whether a level would be the source of anything if it stood alone. -/
def ConfigLevel.speaks (l : ConfigLevel V) : Bool := records .zero l

variable {levels : List (ConfigLevel V)}

theorem cascade_alikePosture (h : ∀ l ∈ levels, l.speaks = false) :
    AlikePosture .zero (cascade levels).config.steward := by
  induction levels using List.reverseRecOn with
  | nil => exact ⟨rfl, rfl, rfl⟩
  | append_singleton levels l ih =>
    have hbefore := ih fun l' hl' => h l' (mem_append_left _ hl')
    have hsilent : l.speaks = false := h l (by simp)
    have hposture : writesPosture (cascade levels).config.steward l = false := by
      rw [writesPosture_congr hbefore]
      exact (Bool.or_eq_false_iff.mp hsilent).2
    have hafter := alikePosture_of_not_writesPosture (postureAfter_apply _ l) hposture
    rw [cascade_concat]
    exact ⟨hafter.scriptSigning.trans hbefore.scriptSigning, hafter.mode.trans hbefore.mode,
      hafter.publishers.trans hbefore.publishers⟩

theorem hasSource_cascade : (cascade levels).HasSource ↔ ∃ l ∈ levels, l.speaks = true := by
  induction levels using List.reverseRecOn with
  | nil => simp [cascade, HasSource, initial]
  | append_singleton levels l ih =>
    rw [cascade_concat, hasSource_apply, ih]
    by_cases hbefore : ∃ l' ∈ levels, l'.speaks = true
    · obtain ⟨l', hl', hspeaks⟩ := hbefore
      exact iff_of_true (.inl ⟨l', hl', hspeaks⟩) ⟨l', mem_append_left _ hl', hspeaks⟩
    -- the settings are still those of an empty configuration
    have halike := cascade_alikePosture fun l' hl' =>
        Bool.eq_false_iff.mpr fun hspeaks => hbefore ⟨l', hl', hspeaks⟩
    have hsame : records (cascade levels).config.steward l = l.speaks := by
      rw [records, writesPosture_congr halike]
      rfl
    rw [hsame]
    constructor
    · rintro (hold | hspeaks)
      · exact absurd hold hbefore
      · exact ⟨l, by simp, hspeaks⟩
    · rintro ⟨l', hl', hspeaks⟩
      rcases List.mem_append.mp hl' with hold | hnew
      · exact absurd ⟨l', hold, hspeaks⟩ hbefore
      · obtain rfl := List.mem_singleton.mp hnew
        exact .inr hspeaks

end Cfgms.Config
