import Cfgms.Config.Resolve

/-! # Faults during resolution

A resolution that gets through the cascade has met no fault and is the one that an undisturbed
run makes. One that is cut short for a tenant with a hierarchy record comes back without an
error, as if no configuration were stored.
-/

namespace Cfgms.Config

namespace Codec

variable {V : Type*} (C : Codec V) (S : Storage V) (F : Faults)

def parses (document : Option ConfigEntry) : Bool :=
  document.all fun entry => (C.unmarshal entry.data).isOk

def levelOf (document : Option ConfigEntry) (source : ConfigEntry → InheritanceSource) :
    List (ConfigLevel V) :=
  match document with
  | none => []
  | some entry =>
    match C.unmarshal entry.data with
    | .error _ => []
    | .ok config => [⟨config, source entry⟩]

variable {C F} in
theorem load_cases (r : Read) (document : Option ConfigEntry)
    (source : ConfigEntry → InheritanceSource) :
    (∃ reason, C.load F r document = .error (.read reason) ∧ F r ≠ none) ∨
    (∃ reason, C.load F r document = .error (.parse reason) ∧ F r = none ∧
      C.parses document = false ∧ C.levelOf document source = []) ∨
    (C.load F r document = .ok none ∧ F r = none ∧ C.parses document = true ∧
      C.levelOf document source = []) ∨
    ∃ entry config, C.load F r document = .ok (some (entry, config)) ∧ F r = none ∧
      C.parses document = true ∧ C.levelOf document source = [⟨config, source entry⟩] := by
  unfold load levelOf parses
  cases hfault : F r with
  | some reason => exact .inl ⟨reason, rfl, by simp⟩
  | none =>
    cases document with
    | none => exact .inr (.inr (.inl ⟨rfl, rfl, rfl, rfl⟩))
    | some entry =>
      cases hparse : C.unmarshal entry.data with
      | error reason =>
        exact .inr (.inl ⟨reason, by simp [hparse], rfl, by simp [hparse, Except.isOk, Except.toBool],
          by simp [hparse]⟩)
      | ok config =>
        exact .inr (.inr (.inr ⟨entry, config, by simp [hparse], rfl,
          by simp [hparse, Except.isOk, Except.toBool], by simp [hparse]⟩))

/-- The document of a tenant at its depth, with the source that it is recorded under. -/
def levelDocuments : ℕ → List String → List (ConfigLevel V)
  | _, [] => []
  | depth, tenantID :: path =>
    (match tenantLevelConfigKey (tenantLevelForDepth depth) tenantID with
    | none => []
    | some key => C.levelOf (S.routed key) (levelSource (tenantLevelForDepth depth) key)) ++
      levelDocuments (depth + 1) path

def LevelsReadable : ℕ → List String → Prop
  | _, [] => True
  | depth, tenantID :: path =>
    (∀ key ∈ tenantLevelConfigKey (tenantLevelForDepth depth) tenantID,
      F (.level depth) = none ∧ C.parses (S.routed key) = true) ∧ LevelsReadable (depth + 1) path

/-- The identifiers in use once the documents of the clusters have been read. -/
def idsAfter : List String → Ids → Ids
  | [], ids => ids
  | clusterName :: clusters, ids =>
    idsAfter clusters
      (if C.parses (S.routed (clusterKey ids.tenantID clusterName)) then ids else ids.loggable)

def clusterDocuments : List String → Ids → List (ConfigLevel V)
  | [], _ => []
  | clusterName :: clusters, ids =>
    let key := clusterKey ids.tenantID clusterName
    C.levelOf (S.routed key) (clusterSource key) ++
      clusterDocuments clusters (if C.parses (S.routed key) then ids else ids.loggable)

def roleDocuments (ids : Ids) : List (ConfigLevel V) :=
  S.matchingRoles.elim [] fun matching =>
    (matching ids.stewardID).map fun fragment =>
      ⟨fragment.config, roleSource ids.tenantID fragment⟩

def deviceDocument (ids : Ids) : Option ConfigEntry :=
  S.routed (deviceKey ids.tenantID ids.stewardID)

/-- All levels of a cascade, in the order in which they are applied. -/
def documents (path : List String) (ids : Ids) : List (ConfigLevel V) :=
  let ids' := C.idsAfter S (S.memberClusters ids.stewardID) ids
  C.levelDocuments S 0 path ++ C.clusterDocuments S (S.memberClusters ids.stewardID) ids ++
    roleDocuments S ids' ++
    C.levelOf (deviceDocument S ids') (deviceSource (deviceKey ids'.tenantID ids'.stewardID))

/-- No read that the cascade makes fails, and the documents that have to parse do. -/
structure Uninterrupted (scope : TenantScope) (path : List String) (ids : Ids) : Prop where
  authorized : authorizeTenant scope ids.tenantID = true
  tenantPath : F .tenantPath = none ∧ S.tenantPath ids.tenantID = .ok path
  sources : F .sources = none
  levels : C.LevelsReadable S F 0 path
  clusters : ∀ i < (S.memberClusters ids.stewardID).length, F (.cluster i) = none
  roles : S.matchingRoles.isSome = true → F .roles = none
  device : F .device = none ∧
    C.parses (deviceDocument S (C.idsAfter S (S.memberClusters ids.stewardID) ids)) = true

def levelKeys : ℕ → List String → List ConfigKey
  | _, [] => []
  | depth, tenantID :: path =>
    (tenantLevelConfigKey (tenantLevelForDepth depth) tenantID).toList ++ levelKeys (depth + 1) path

/-- A configuration is stored at some level of the cascade, whether or not it parses. A tenant
without a path has the device level only. -/
def ConfigurationStored (ids : Ids) : Prop :=
  match S.tenantPath ids.tenantID with
  | .ok path => (∃ key ∈ levelKeys 0 path, (S.routed key).isSome = true) ∨
      (∃ c ∈ S.memberClusters ids.stewardID,
        (S.routed (clusterKey ids.tenantID c)).isSome = true) ∨
      roleDocuments S ids ≠ [] ∨ (deviceDocument S ids).isSome = true
  | .error _ => (S.configStore (deviceKey ids.tenantID ids.stewardID)).isSome = true

variable {C S F}
variable {applied r : List (ConfigLevel V)} {tenantID : String} {depth : ℕ}

theorem applyConfigurationLevel_eq_ok_iff {key : ConfigKey}
    (hkey : tenantLevelConfigKey (tenantLevelForDepth depth) tenantID = some key) :
    C.applyConfigurationLevel S F applied tenantID depth = .ok r ↔
      (F (.level depth) = none ∧ C.parses (S.routed key) = true) ∧
      r = applied ++ C.levelOf (S.routed key) (levelSource (tenantLevelForDepth depth) key) := by
  unfold applyConfigurationLevel
  rcases load_cases (C := C) (F := F) (.level depth) (S.routed key)
    (levelSource (tenantLevelForDepth depth) key) with
    ⟨reason, hload, hfault⟩ | ⟨reason, hload, hfault, hparses, -⟩ | ⟨hload, hfault, hparses, hlevel⟩ |
    ⟨entry, config, hload, hfault, hparses, hlevel⟩
  · simp [hkey, hload, hfault]
  · simp [hkey, hload, hparses]
  all_goals simp [hkey, hload, hfault, hparses, hlevel, eq_comm]

theorem exists_levelKey (depth : ℕ) (tenantID : String) :
    ∃ key, tenantLevelConfigKey (tenantLevelForDepth depth) tenantID = some key := by
  match depth with
  | 0 => exact ⟨_, rfl⟩
  | 1 => exact ⟨_, rfl⟩
  | _ + 2 => exact ⟨_, rfl⟩

variable {path : List String} {ids : Ids}

theorem applyLevels_eq_ok_iff : C.applyLevels S F depth path applied = .ok r ↔
      C.LevelsReadable S F depth path ∧ r = applied ++ C.levelDocuments S depth path := by
  induction path generalizing depth applied with
  | nil => simp [applyLevels, LevelsReadable, levelDocuments, eq_comm]
  | cons tenantID path ih =>
    obtain ⟨key, hkey⟩ := exists_levelKey depth tenantID
    rw [applyLevels, LevelsReadable, levelDocuments]
    cases hstep : C.applyConfigurationLevel S F applied tenantID depth with
    | error reason =>
      have hnot : ¬ (F (.level depth) = none ∧ C.parses (S.routed key) = true) := by
        intro hreadable
        have hok : C.applyConfigurationLevel S F applied tenantID depth = .ok _ :=
          (applyConfigurationLevel_eq_ok_iff hkey).mpr ⟨hreadable, rfl⟩
        rw [hstep] at hok
        cases hok
      simp only [reduceCtorEq, hkey, Option.mem_some_iff, forall_eq', false_iff]
      exact fun h => hnot h.1.1
    | ok applied' =>
      obtain ⟨hreadable, rfl⟩ := (applyConfigurationLevel_eq_ok_iff hkey).mp hstep
      simp [ih, hkey, hreadable]

theorem applyClusters_eq_ok_iff {clusters : List String} {position : ℕ} {r : Ids × List (ConfigLevel V)} :
    C.applyClusters S F position clusters ids applied = .ok r ↔
      (∀ i < clusters.length, F (.cluster (position + i)) = none) ∧
      r = (C.idsAfter S clusters ids, applied ++ C.clusterDocuments S clusters ids) := by
  induction clusters generalizing position ids applied with
  | nil => simp [applyClusters, idsAfter, clusterDocuments, eq_comm]
  | cons c clusters ih =>
    have hforall : (∀ i < (c :: clusters).length, F (.cluster (position + i)) = none) ↔
        F (.cluster position) = none ∧
          ∀ i < clusters.length, F (.cluster (position + 1 + i)) = none := by
      rw [List.length_cons, Nat.forall_lt_succ_left]
      simp only [Nat.add_zero, Nat.add_assoc, Nat.add_comm 1]
    rw [hforall, applyClusters, applyClusterConfiguration, idsAfter, clusterDocuments]
    -- a document that does not parse is skipped, and the identifiers change
    rcases load_cases (C := C) (F := F) (.cluster position) (S.routed (clusterKey ids.tenantID c))
      (clusterSource (clusterKey ids.tenantID c)) with
      ⟨reason, hload, hfault⟩ | ⟨reason, hload, hfault, hparses, hlevel⟩ |
      ⟨hload, hfault, hparses, hlevel⟩ | ⟨entry, config, hload, hfault, hparses, hlevel⟩
    · simp [hload, hfault]
    all_goals simp [hload, hfault, hparses, hlevel, ih]

theorem applyRoles_eq_ok_iff : applyRoles S F ids applied = .ok r ↔
      (S.matchingRoles.isSome = true → F .roles = none) ∧ r = applied ++ roleDocuments S ids := by
  unfold applyRoles roleDocuments
  cases S.matchingRoles with
  | none => simp [eq_comm]
  | some matching =>
    cases hfault : F .roles with
    | some reason => simp
    | none => simp [eq_comm]

theorem applyDeviceConfiguration_eq_ok_iff : C.applyDeviceConfiguration S F ids applied = .ok r ↔
      (F .device = none ∧ C.parses (deviceDocument S ids) = true) ∧
      r = applied ++ C.levelOf (deviceDocument S ids)
        (deviceSource (deviceKey ids.tenantID ids.stewardID)) := by
  unfold applyDeviceConfiguration deviceDocument
  rcases load_cases (C := C) (F := F) .device (S.routed (deviceKey ids.tenantID ids.stewardID))
    (deviceSource (deviceKey ids.tenantID ids.stewardID)) with
    ⟨reason, hload, hfault⟩ | ⟨reason, hload, hfault, hparses, -⟩ | ⟨hload, hfault, hparses, hlevel⟩ |
    ⟨entry, config, hload, hfault, hparses, hlevel⟩
  · simp [hload, hfault]
  · simp [hload, hparses]
  all_goals simp [hload, hfault, hparses, hlevel, eq_comm]

theorem applyAll_eq_ok_iff : C.applyAll S F path ids = .ok r ↔ C.LevelsReadable S F 0 path ∧
      (∀ i < (S.memberClusters ids.stewardID).length, F (.cluster i) = none) ∧
      (S.matchingRoles.isSome = true → F .roles = none) ∧ (F .device = none ∧
        C.parses (deviceDocument S (C.idsAfter S (S.memberClusters ids.stewardID) ids)) = true) ∧
      r = C.documents S path ids := by
  constructor
  · fun_cases applyAll C S F path ids <;> rintro ⟨⟩
    next applied hlevels ids' applied' hclusters applied'' hroles hlast =>
    obtain ⟨hreadable, rfl⟩ := applyLevels_eq_ok_iff.mp hlevels
    obtain ⟨hread, hids⟩ := applyClusters_eq_ok_iff.mp hclusters
    cases hids
    obtain ⟨hlookup, rfl⟩ := applyRoles_eq_ok_iff.mp hroles
    obtain ⟨hdevice, rfl⟩ := applyDeviceConfiguration_eq_ok_iff.mp hlast
    exact ⟨hreadable, by simpa using hread, hlookup, hdevice, by simp [documents]⟩
  · rintro ⟨hreadable, hread, hlookup, hdevice, rfl⟩
    have hlevels : C.applyLevels S F 0 path [] = .ok _ :=
      applyLevels_eq_ok_iff.mpr ⟨hreadable, rfl⟩
    have hclusters : ∀ applied,
        C.applyClusters S F 0 (S.memberClusters ids.stewardID) ids applied = .ok _ :=
      fun applied => applyClusters_eq_ok_iff.mpr ⟨by simpa using hread, rfl⟩
    have hroles : ∀ ids applied, applyRoles S F ids applied = .ok _ :=
      fun ids applied => applyRoles_eq_ok_iff.mpr ⟨hlookup, rfl⟩
    have hlast : ∀ applied, C.applyDeviceConfiguration S F
        (C.idsAfter S (S.memberClusters ids.stewardID) ids) applied = .ok _ :=
      fun applied => applyDeviceConfiguration_eq_ok_iff.mpr ⟨hdevice, rfl⟩
    simp [applyAll, hlevels, hclusters, hroles, hlast, documents]

/-- The cascade comes through exactly if nothing interrupts it, and then with all documents. -/
theorem resolveLevels_eq_ok_iff {scope : TenantScope} {stewardID : String} :
    C.resolveLevels S F scope tenantID stewardID = .ok r ↔
      ∃ path, C.Uninterrupted S F scope path ⟨tenantID, stewardID⟩ ∧
        r = C.documents S path ⟨tenantID, stewardID⟩ := by
  constructor
  · fun_cases resolveLevels C S F scope tenantID stewardID
    case case4 hauthorized path hpath hsources =>
      intro h
      obtain ⟨hlevels, hclusters, hroles, hdevice, hr⟩ := applyAll_eq_ok_iff.mp h
      unfold getTenantPath at hpath
      split at hpath
      · cases hpath
      next hfault =>
      exact ⟨path, ⟨by simpa using hauthorized, ⟨hfault, hpath⟩, hsources, hlevels, hclusters,
        hroles, hdevice⟩, hr⟩
    all_goals nofun
  · rintro ⟨path, hun, rfl⟩
    have hall : C.applyAll S F path ⟨tenantID, stewardID⟩ = .ok _ :=
      applyAll_eq_ok_iff.mpr ⟨hun.levels, hun.clusters, hun.roles, hun.device, rfl⟩
    simp [resolveLevels, getTenantPath, hun.authorized, hun.tenantPath, hun.sources, hall]

theorem LevelsReadable.noFaults
    (h : C.LevelsReadable S F depth path) : C.LevelsReadable S (fun _ => none) depth path := by
  induction path generalizing depth with
  | nil => trivial
  | cons tenantID path ih => exact ⟨fun key hkey => ⟨rfl, (h.1 key hkey).2⟩, ih h.2⟩

theorem Uninterrupted.noFaults {scope : TenantScope} (h : C.Uninterrupted S F scope path ids) :
    C.Uninterrupted S (fun _ => none) scope path ids where
  authorized := h.authorized
  tenantPath := ⟨rfl, h.tenantPath.2⟩
  sources := rfl
  levels := h.levels.noFaults
  clusters _ _ := rfl
  roles _ := rfl
  device := ⟨rfl, h.device.2⟩

section Outcomes

variable {scope : TenantScope} {stewardID : String}

theorem resolveEffective_of_uninterrupted {path : List String}
    (h : C.Uninterrupted S F scope path ⟨tenantID, stewardID⟩) :
    C.resolveEffective S F scope tenantID stewardID =
      if (C.documents S path ⟨tenantID, stewardID⟩).any ConfigLevel.speaks then
        .ok (some (.ofLevels tenantID stewardID (C.documents S path ⟨tenantID, stewardID⟩)))
      else .ok none := by
  have hok : C.resolveLevels S F scope tenantID stewardID = .ok _ :=
    resolveLevels_eq_ok_iff.mpr ⟨path, h, rfl⟩
  simp only [resolveEffective, resolveConfiguration, hok, Except.map, Resolved.ofLevels]

theorem resolveEffective_of_interrupted
    (h : ¬ ∃ path, C.Uninterrupted S F scope path ⟨tenantID, stewardID⟩) :
    C.resolveEffective S F scope tenantID stewardID =
      C.resolveDeviceLevelFallback S F tenantID stewardID := by
  cases hlevels : C.resolveLevels S F scope tenantID stewardID with
  | error reason => simp only [resolveEffective, resolveConfiguration, hlevels, Except.map]
  | ok r =>
    obtain ⟨path, hun, -⟩ := resolveLevels_eq_ok_iff.mp hlevels
    exact absurd ⟨path, hun⟩ h

theorem fallback_ne_some (hrecord : S.tenantRecord tenantID = true) (e : Resolved V) :
    C.resolveDeviceLevelFallback S F tenantID stewardID ≠ .ok (some e) := by
  unfold resolveDeviceLevelFallback
  cases F .tenantRecord with
  | some reason => simp
  | none => simp [hrecord]

theorem fallback_eq_none (hrecord : S.tenantRecord tenantID = false)
    (h : C.resolveDeviceLevelFallback S F tenantID stewardID = .ok none) :
    S.configStore (deviceKey tenantID stewardID) = none := by
  unfold resolveDeviceLevelFallback getConfiguration at h
  cases hstore : S.configStore (deviceKey tenantID stewardID) with
  | none => rfl
  | some entry =>
    grind

theorem served_is_undisturbed {e : Resolved V} (hrecord : S.tenantRecord tenantID = true)
    (h : C.resolveEffective S F scope tenantID stewardID = .ok (some e)) :
    C.resolveEffective S (fun _ => none) scope tenantID stewardID = .ok (some e) := by
  by_cases hun : ∃ path, C.Uninterrupted S F scope path ⟨tenantID, stewardID⟩
  · obtain ⟨path, hun⟩ := hun
    rw [resolveEffective_of_uninterrupted hun] at h
    rw [resolveEffective_of_uninterrupted hun.noFaults, h]
  · rw [resolveEffective_of_interrupted hun] at h
    exact absurd h (fallback_ne_some hrecord e)

end Outcomes

def hostConfig : StewardConfig Unit := { StewardConfig.zero with steward.id := "host-1" }

def plainCodec : Codec Unit where
  unmarshal data := if data = "host" then .ok hostConfig else .error "not a document"
  sha256 data := data
  quote s := s

def hostEntry : ConfigEntry := ⟨"host", 1, 0, "host"⟩

def acmePath (t : String) : Except String (List String) :=
  if t = "acme" then .ok ["acme"] else .error "tenant does not exist"

theorem acmePath_recorded (t : String) (h : (acmePath t).isOk = true) :
    decide (t = "acme") = true := by
  unfold acmePath at h
  split at h
  · next ht => exact decide_eq_true ht
  · cases h

def oneHost : Storage Unit where
  tenantPath := acmePath
  tenantRecord t := t = "acme"
  recorded := acmePath_recorded
  routed k := if k = deviceKey "acme" "host-1" then some hostEntry else none
  configStore k := if k = deviceKey "acme" "host-1" then some hostEntry else none
  memberClusters _ := []
  matchingRoles := none

def topFault : Faults := fun r => if r = .level 0 then some "storage backend unavailable" else none

end Codec

namespace ConfigurationService

variable {V P : Type*}

theorem requestTenant_cases (svc : ConfigurationService V P) (ctx : RequestContext)
    (stewardID : String) {lookup : String → Option String}
    (hwired : svc.stewardTenant = some lookup) :
    (∃ response, svc.requestTenant ctx stewardID = .error response ∧ response.config = none) ∨
      ∃ tenantID, svc.requestTenant ctx stewardID = .ok tenantID ∧
        lookup stewardID = some tenantID ∧ tenantGuardDenies ctx tenantID = false := by
  fun_cases requestTenant svc ctx stewardID <;> simp_all

/-- Every document has three resources, of which one runs on the controller. -/
def mixedService : ConfigurationService Unit (List String) where
  codec :=
    { Codec.plainCodec with
      unmarshal := fun _ => .ok { Codec.hostConfig with
        resources := [⟨"motd", "file", ()⟩, ⟨"backup", "m365", ()⟩, ⟨"ssh", "service", ()⟩] } }
  stewardTenant := some fun _ => some "acme"
  runsOnController m := m = "m365"
  toProto c := some (c.resources.map (·.name))
  latestVersion _ _ := none

end ConfigurationService

end Cfgms.Config
