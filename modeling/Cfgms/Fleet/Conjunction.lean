import Mathlib.Data.Fintype.EquivFin
import Cfgms.Fleet.Selector

/-! # Terms of a selector

A filter asks for the last term of each single-valued key, for every tag, and for one of the IDs
that the terms name together. It is the conjunction of its terms for the stewards that meet the
replaced terms as well.
-/

namespace Cfgms.Fleet

open Go List

variable (table : CaseTable)

/-- The steward is matched by the filter that the term makes on its own. -/
def matchesTerm (s : Steward) (t : Term) : Bool :=
  match applyTerm .empty t with
  | .error _ => false
  | .ok f => matchesFilter table s f

def termsOf (expr : List Char) : List Term :=
  match parseTerms expr with
  | .error _ => []
  | .ok terms => terms

def lastOf (terms : List Term) (key : String) : Option Term :=
  (terms.filter (·.key = key)).getLast?

/-- The terms that a later one does not replace, with one of the ID terms for all of them. -/
structure MeetsKept (s : Steward) (terms : List Term) : Prop where
  single : ∀ key, key ≠ "id" → key ≠ "tag" → ∀ t ∈ lastOf terms key, matchesTerm table s t
  tags : ∀ t ∈ terms, t.key = "tag" → matchesTerm table s t
  ids : (∃ t ∈ terms, t.key = "id") → ∃ t ∈ terms, t.key = "id" ∧ matchesTerm table s t

variable {t : Term} {terms : List Term} {field : Field}
variable {position : ℕ} {expr : List Char}

theorem takeTerm_value {rest : List Char} (hstart : expr.head? ≠ some ' ') (hexpr : expr ≠ [])
    (h : takeTerm position expr = .ok (t, rest)) : t.value ≠ "" := by
  revert h
  fun_cases takeTerm position expr <;> rintro ⟨⟩
  · cases expr with
    | nil => exact absurd rfl hexpr
    | cons c cs =>
      have hc : c ≠ ' ' := by simpa using hstart
      simp +zetaDelta [hc]
  · next hvalue _ => simpa using hvalue

theorem head?_dropWhile_space (expr : List Char) : (expr.dropWhile (· = ' ')).head? ≠ some ' ' := by
  intro h
  have hnot := head?_dropWhile_not (· = ' ') expr
  rw [h] at hnot
  simp at hnot

theorem tokenize_value {fuel : ℕ}
    (h : tokenize fuel position expr = .ok terms) : ∀ t ∈ terms, t.value ≠ "" := by
  revert h
  fun_induction tokenize fuel position expr generalizing terms with rintro ⟨⟩
  | case1 | case2 => simp
  | case5 =>
    rename_i expr _ _ hstart _ _ hterm _ hts ih
    rintro t' (_ | ⟨_, ht'⟩)
    · exact takeTerm_value (head?_dropWhile_space expr) hstart hterm
    · exact ih hts t' ht'

theorem tokenize_ne_nil {fuel : ℕ}
    (hexpr : ∃ c ∈ expr, c ≠ ' ') (h : tokenize (fuel + 1) position expr = .ok terms) :
    terms ≠ [] := by
  unfold tokenize at h
  dsimp only at h
  split at h
  · next hnil =>
    obtain ⟨c, hc, hne⟩ := hexpr
    exact absurd (by simpa using dropWhile_eq_nil_iff.mp hnil c hc) hne
  · split at h
    · cases h
    · split at h <;> cases h
      simp

theorem exists_ne_space {s : List Char} (h : trimSpace s ≠ []) : ∃ c ∈ trimSpace s, c ≠ ' ' := by
  refine ⟨(trimSpace s).getLast h, getLast_mem h, ?_⟩
  have hlast := rdropWhile_last_not isSpace (s.dropWhile isSpace) h
  intro hspace
  rw [show ((s.dropWhile isSpace).rdropWhile isSpace).getLast h = ' ' from hspace] at hlast
  exact hlast (by decide)

def Field.key : Field → String
  | .id => "id"
  | .name => "name"
  | .os => "os"
  | .platform => "platform"
  | .arch => "arch"
  | .tag => "tag"
  | .dna attr => "dna." ++ attr

variable {key : String}

theorem key_of_fieldOf (h : fieldOf key = .ok field) : key = field.key := by
  unfold fieldOf at h
  split_ifs at h with hid hname hos hplatform harch htag hdna hempty <;> cases h
  any_goals assumption
  obtain ⟨attr, hattr⟩ := isPrefixOf_iff_prefix.mp hdna
  have hdrop : key.toList.drop 4 = attr := hattr ▸ rfl
  apply String.toList_injective
  rw [hdrop, Field.key, String.toList_append, ← hattr]
  exact congrArg _ String.toList_ofList.symm

theorem dna_key_ne (attr : String)
    (h : "dna.".toList.isPrefixOf key.toList = false) : "dna." ++ attr ≠ key := by
  rintro rfl
  rw [String.toList_append, isPrefixOf_iff_prefix.mpr (prefix_append _ _)] at h
  cases h

theorem Field.key_injective : Function.Injective Field.key := by
  intro a b h
  cases a with
  | dna attr =>
    cases b with
    | dna attr' =>
      have happend := congrArg String.toList h
      simp only [Field.key, String.toList_append, append_cancel_left_eq] at happend
      exact congrArg _ (String.toList_injective happend)
    | _ => exact absurd h (dna_key_ne attr (by decide))
  | _ =>
    cases b with
    | dna attr => exact absurd h.symm (dna_key_ne attr (by decide))
    | _ => first | rfl | exact absurd h (by decide)

def Field.Satisfied (s : Steward) (value : String) : Field → Prop
  | .id => s.id ∈ splitComma value
  | .name => matchesName table value (s.attr "hostname")
  | .os => s.attr "os" = value
  | .platform => s.attr "platform" = value
  | .arch => s.attr "arch" = value
  | .tag => stewardHasTag s value
  | .dna attr => s.attr attr = value

def Filter.Asks (f : Filter) (s : Steward) : Field → Prop
  | .id => f.ids = [] ∨ s.id ∈ f.ids
  | .name => f.name = "" ∨ matchesName table f.name (s.attr "hostname")
  | .os => f.os = "" ∨ s.attr "os" = f.os
  | .platform => f.platform = "" ∨ s.attr "platform" = f.platform
  | .arch => f.architecture = "" ∨ s.attr "arch" = f.architecture
  | .tag => ∀ tag ∈ f.tags, stewardHasTag s tag
  | .dna attr => ∀ value ∈ f.dnaAttributes.get attr, s.attr attr = value

/-- The fields that no term sets. -/
structure Filter.Untouched (f : Filter) : Prop where
  deviceID : f.deviceID = ""
  tenantID : f.tenantID = ""
  tenantSubtree : f.tenantSubtree = ""
  status : f.status = ""
  hostname : f.hostname = ""

theorem Filter.untouched_empty : Filter.empty.Untouched := ⟨rfl, rfl, rfl, rfl, rfl⟩

variable {f : Filter}

theorem Filter.Untouched.set (h : f.Untouched) (value : String) (field : Field) :
    (f.set value field).Untouched := by
  cases field <;> exact ⟨h.1, h.2, h.3, h.4, h.5⟩

theorem Filter.asks_empty (s : Steward) (field : Field) : Filter.empty.Asks table s field := by
  cases field <;> simp [Filter.empty, Filter.Asks, StringMap.get, StringMap.empty]

theorem matchesFilter_iff (h : f.Untouched) (s : Steward) :
    matchesFilter table s f ↔ ∀ field, f.Asks table s field := by
  have hdna : (f.dnaAttributes.entries.all fun e => s.attr e.1 = e.2) ↔
      ∀ attr, ∀ value ∈ f.dnaAttributes.get attr, s.attr attr = value := by
    simp only [all_eq_true, decide_eq_true_eq, Option.mem_def,
      StringMap.get_eq_some_iff]
    exact ⟨fun hall attr value hmem => hall _ hmem, fun hall e he => hall e.1 e.2 he⟩
  unfold matchesFilter
  simp only [Bool.and_eq_true, hdna, h.deviceID, h.tenantID, h.tenantSubtree, h.status,
    h.hostname, true_or, decide_true, true_and, and_true, decide_eq_true_eq, all_eq_true]
  constructor
  · rintro ⟨⟨⟨⟨⟨⟨hid, hos⟩, hplatform⟩, harch⟩, hname⟩, htags⟩, hattrs⟩ field
    cases field with
    | dna attr => exact hattrs attr
    | _ => assumption
  · intro hall
    exact ⟨⟨⟨⟨⟨⟨hall .id, hall .os⟩, hall .platform⟩, hall .arch⟩, hall .name⟩, hall .tag⟩,
      fun attr => hall (.dna attr)⟩

/-- A field that holds one value, which a later term replaces. -/
def Field.Single (field : Field) : Prop := field ≠ .id ∧ field ≠ .tag

theorem Filter.asks_set_of_ne (f : Filter) (s : Steward) (value : String) {field' : Field}
    (h : field' ≠ field) : (f.set value field').Asks table s field ↔ f.Asks table s field := by
  cases field' with
  | dna attr' =>
    cases field with
    | dna attr =>
      have hattr : attr' ≠ attr := fun heq => h (heq ▸ rfl)
      simp [Filter.set, Filter.Asks, StringMap.get_set, hattr]
    | _ => rfl
  | _ => cases field <;> first | rfl | exact absurd rfl h

theorem Filter.asks_set_self (f : Filter) (s : Steward) {value : String}
    (hfield : field.Single) (hvalue : value ≠ "") :
    (f.set value field).Asks table s field ↔ field.Satisfied table s value := by
  cases field with
  | id => exact absurd rfl hfield.1
  | tag => exact absurd rfl hfield.2
  | dna attr => simp [Filter.set, Filter.Asks, Field.Satisfied, StringMap.get_set]
  | _ => simp [Filter.set, Filter.Asks, Field.Satisfied, hvalue]

theorem splitComma_ne_nil (s : String) : splitComma s ≠ [] := by
  simp [splitComma, splitOn_ne_nil]

theorem applyTerm_eq_ok {g : Filter} (h : applyTerm f t = .ok g) :
    ∃ field, fieldOf t.key = .ok field ∧ g = f.set t.value field := by
  unfold applyTerm at h
  split at h
  · cases h
  next field hfield =>
  cases h
  exact ⟨field, hfield, rfl⟩

theorem applyTerms_append (f : Filter) (ts : List Term) (t : Term) (g : Filter) :
    applyTerms f (ts ++ [t]) = .ok g ↔
      ∃ f', applyTerms f ts = .ok f' ∧ applyTerm f' t = .ok g := by
  induction ts generalizing f with
  | nil =>
    simp only [nil_append, applyTerms, Except.ok.injEq, exists_eq_left']
    cases applyTerm f t <;> simp
  | cons t' ts ih =>
    simp only [cons_append, applyTerms]
    cases applyTerm f t' with
    | error err => simp
    | ok f' => exact ih f'

variable {s : Steward}

theorem matchesTerm_iff (hfield : fieldOf t.key = .ok field) (hvalue : t.value ≠ "") :
    matchesTerm table s t ↔ field.Satisfied table s t.value := by
  have happly : applyTerm .empty t = .ok (Filter.empty.set t.value field) := by
    rw [applyTerm, hfield]
  rw [matchesTerm, happly]
  dsimp only
  rw [matchesFilter_iff table (Filter.untouched_empty.set t.value field)]
  have hother : (∀ field', (Filter.empty.set t.value field).Asks table s field') ↔
      (Filter.empty.set t.value field).Asks table s field := by
    constructor
    · exact fun hall => hall field
    · intro hself field'
      by_cases heq : field = field'
      · exact heq ▸ hself
      · exact (Filter.asks_set_of_ne table _ s _ heq).mpr (Filter.asks_empty table s field')
  rw [hother]
  cases field with
  | id => simp [Filter.set, Filter.Asks, Filter.empty, Field.Satisfied, splitComma_ne_nil]
  | tag => simp [Filter.set, Filter.Asks, Filter.empty, Field.Satisfied]
  | _ => exact Filter.asks_set_self table _ s ⟨by simp, by simp⟩ hvalue

theorem lastOf_append (ts : List Term) (t : Term) (key : String) :
    lastOf (ts ++ [t]) key = if t.key = key then some t else lastOf ts key := by
  unfold lastOf
  by_cases hkey : t.key = key <;> simp [hkey]

theorem mem_of_lastOf (h : t ∈ lastOf terms key) : t ∈ terms ∧ t.key = key := by
  simpa using mem_of_getLast? h

theorem exists_lastOf (h : t ∈ terms) : ∃ t', t' ∈ lastOf terms t.key := by
  have hne : terms.filter (·.key = t.key) ≠ [] :=
    ne_nil_of_mem (mem_filter.mpr ⟨h, by simp⟩)
  exact ⟨_, getLast?_eq_some_getLast hne⟩

/-- The filter of some terms, as far as a steward can tell. -/
structure Built (f : Filter) (s : Steward) (terms : List Term) : Prop where
  untouched : f.Untouched
  known : ∀ t ∈ terms, ∃ field, fieldOf t.key = .ok field
  ids_eq_nil : f.ids = [] ↔ ∀ t ∈ terms, t.key ≠ "id"
  mem_ids : s.id ∈ f.ids ↔ ∃ t ∈ terms, t.key = "id" ∧ s.id ∈ splitComma t.value
  mem_tags : ∀ tag, tag ∈ f.tags ↔ ∃ t ∈ terms, t.key = "tag" ∧ t.value = tag
  single : ∀ field : Field, field.Single →
    (f.Asks table s field ↔ ∀ t ∈ lastOf terms field.key, field.Satisfied table s t.value)

theorem Built.empty (s : Steward) : Built table .empty s [] where
  untouched := Filter.untouched_empty
  known := by simp
  ids_eq_nil := by simp [Filter.empty]
  mem_ids := by simp [Filter.empty]
  mem_tags := by simp [Filter.empty]
  single field _ := by simpa [lastOf] using Filter.asks_empty table s field

theorem Built.append {g : Filter}
    (h : Built table f s terms) (hvalue : t.value ≠ "") (happly : applyTerm f t = .ok g) :
    Built table g s (terms ++ [t]) := by
  obtain ⟨field, hfield, rfl⟩ := applyTerm_eq_ok happly
  have hkey := key_of_fieldOf hfield
  have hsame (field' : Field) : t.key = field'.key ↔ field = field' :=
    hkey ▸ Field.key_injective.eq_iff
  have hid : t.key = "id" ↔ field = .id := hsame .id
  have htag : t.key = "tag" ↔ field = .tag := hsame .tag
  constructor
  · exact h.untouched.set t.value field
  · intro t' ht'
    rcases mem_append.mp ht' with ht' | ht'
    · exact h.known t' ht'
    · exact ⟨field, by rw [mem_singleton.mp ht', hfield]⟩
  · cases field with
    | id => simp [Filter.set, splitComma_ne_nil, hid, or_imp, forall_and]
    | _ => simp [Filter.set, h.ids_eq_nil, hid, or_imp, forall_and]
  · cases field <;> simp [Filter.set, h.mem_ids, hid, or_and_right, exists_or]
  · intro tag
    cases field with
    | tag => simp [Filter.set, h.mem_tags, htag, or_and_right, exists_or, @eq_comm _ tag]
    | _ => simp [Filter.set, h.mem_tags, htag, or_and_right, exists_or]
  · intro field' hsingle
    rw [lastOf_append]
    by_cases heq : field = field'
    · subst heq
      simp [hkey, Filter.asks_set_self table f s hsingle hvalue]
    rw [Filter.asks_set_of_ne table f s _ heq, if_neg (mt (hsame field').mp heq),
      h.single field' hsingle]

theorem built_of_applyTerms (s : Steward)
    (hvalues : ∀ t ∈ terms, t.value ≠ "") (h : applyTerms .empty terms = .ok f) :
    Built table f s terms := by
  induction terms using List.reverseRecOn generalizing f with
  | nil =>
    cases h
    exact Built.empty table s
  | append_singleton ts t ih =>
    obtain ⟨f', hf', happly⟩ := (applyTerms_append _ _ _ _).mp h
    have hbuilt := ih (fun t' ht' => hvalues t' (mem_append_left _ ht')) hf'
    exact hbuilt.append table (hvalues t (by simp)) happly

theorem Built.matches_iff (h : Built table f s terms) (hvalues : ∀ t ∈ terms, t.value ≠ "") :
    matchesFilter table s f ↔ MeetsKept table s terms := by
  have hterm : ∀ (field : Field), ∀ t ∈ terms, t.key = field.key →
      (matchesTerm table s t ↔ field.Satisfied table s t.value) := by
    intro field t ht hkey
    obtain ⟨field', hfield'⟩ := h.known t ht
    obtain rfl := Field.key_injective ((key_of_fieldOf hfield').symm.trans hkey)
    exact matchesTerm_iff table hfield' (hvalues t ht)
  rw [matchesFilter_iff table h.untouched]
  constructor
  · intro hall
    constructor
    · intro key hid htag t ht
      obtain ⟨hmem, rfl⟩ := mem_of_lastOf ht
      obtain ⟨field, hfield⟩ := h.known t hmem
      have hkey := key_of_fieldOf hfield
      have hsingle : field.Single := by
        constructor <;> rintro rfl
        · exact hid hkey
        · exact htag hkey
      exact (hterm field t hmem hkey).mpr
        ((h.single field hsingle).mp (hall field) t (hkey ▸ ht))
    · intro t ht hkey
      exact (hterm .tag t ht hkey).mpr (hall .tag _ ((h.mem_tags _).mpr ⟨t, ht, hkey, rfl⟩))
    · rintro ⟨t, ht, hkey⟩
      have hids : f.ids ≠ [] := fun hnil => h.ids_eq_nil.mp hnil t ht hkey
      obtain ⟨t', ht', hkey', hmem⟩ := h.mem_ids.mp ((hall .id).resolve_left hids)
      exact ⟨t', ht', hkey', (hterm .id t' ht' hkey').mpr hmem⟩
  · intro hkept
    have hsingle : ∀ field : Field, field.Single → f.Asks table s field := by
      intro field hfield
      refine (h.single field hfield).mpr fun t ht => ?_
      obtain ⟨hmem, hkey⟩ := mem_of_lastOf ht
      refine (hterm field t hmem hkey).mp (hkept.single field.key ?_ ?_ t ht)
      · exact fun hk => hfield.1 (Field.key_injective hk)
      · exact fun hk => hfield.2 (Field.key_injective hk)
    intro field
    cases field with
    | id =>
      by_cases hids : ∃ t ∈ terms, t.key = "id"
      · obtain ⟨t, ht, hkey, hmatch⟩ := hkept.ids hids
        exact .inr (h.mem_ids.mpr ⟨t, ht, hkey, (hterm .id t ht hkey).mp hmatch⟩)
      · exact .inl (h.ids_eq_nil.mpr (by simpa using hids))
    | tag =>
      intro tag htag
      obtain ⟨t, ht, hkey, rfl⟩ := (h.mem_tags tag).mp htag
      exact (hterm .tag t ht hkey).mp (hkept.tags t ht hkey)
    | _ => exact hsingle _ ⟨by simp, by simp⟩

theorem MeetsKept.of_all (h : ∀ t ∈ terms, matchesTerm table s t) : MeetsKept table s terms where
  single _ _ _ t ht := h t (mem_of_lastOf ht).1
  tags t ht _ := h t ht
  ids := fun ⟨t, ht, hkey⟩ => ⟨t, ht, hkey, h t ht⟩

def stranger (id hostname : String) : Steward :=
  ⟨id, "", "", StringMap.empty.set ("hostname", hostname)⟩

theorem stranger_attr (id hostname k : String) :
    (stranger id hostname).attr k = if "hostname" = k then hostname else "" := by
  simp only [Steward.attr, stranger, StringMap.get_set]
  split <;> rfl

theorem slashes_not_matched (pattern : String) : matchesName table pattern
      (.ofList (List.replicate (pattern.toList.length + 1) '/')) = false := by
  have hslash : table.toLower '/' = '/' := table.ascii '/' (by decide)
  have hmatch := pathMatch_slashes (pattern.toList.map table.toLower)
  simpa [matchesName, hslash] using hmatch

theorem exists_not_satisfied (id : String) {value : String}
    (hfield : field ≠ .id) (hvalue : value ≠ "") :
    ∃ hostname, ¬ field.Satisfied table (stranger id hostname) value := by
  cases field with
  | id => exact absurd rfl hfield
  | name =>
    refine ⟨.ofList (List.replicate (value.toList.length + 1) '/'), ?_⟩
    rw [Field.Satisfied, stranger_attr, if_pos rfl, slashes_not_matched]
    exact Bool.false_ne_true
  | tag =>
    refine ⟨"", ?_⟩
    have htags : (stranger id "").dnaAttributes.get "tags" = none := rfl
    simp [Field.Satisfied, stewardHasTag, htags]
  | os | platform | arch | dna _ =>
    refine ⟨"", ?_⟩
    rw [Field.Satisfied, stranger_attr, ite_self]
    exact hvalue.symm

theorem exists_stranger (hvalues : ∀ t ∈ terms, t.value ≠ "") (h : applyTerms .empty terms = .ok f)
    (hterms : terms ≠ []) : ∃ s, ¬ matchesFilter table s f := by
  obtain ⟨t, ht⟩ := exists_mem_of_ne_nil terms hterms
  obtain ⟨id, hid⟩ := Infinite.exists_notMem_finset f.ids.toFinset
  rw [mem_toFinset] at hid
  have hbuilt := fun hostname => built_of_applyTerms table (stranger id hostname) hvalues h
  have hleft : ∀ hostname field, ¬ f.Asks table (stranger id hostname) field →
      ∃ s, ¬ matchesFilter table s f := by
    intro hostname field hasks
    refine ⟨stranger id hostname, fun hmatch => hasks ?_⟩
    exact (matchesFilter_iff table (hbuilt hostname).untouched _).mp hmatch field
  obtain ⟨field, hfield⟩ := (hbuilt "").known t ht
  have hkey := key_of_fieldOf hfield
  by_cases hsingle : field.Single
  · -- the last term of this key counts, and a host name or none evades it
    obtain ⟨last, hlast⟩ := exists_lastOf ht
    obtain ⟨hostname, hnot⟩ := exists_not_satisfied table id hsingle.1
      (hvalues last (mem_of_lastOf hlast).1)
    refine hleft hostname field fun hasks => hnot ?_
    exact ((hbuilt hostname).single field hsingle).mp hasks last (hkey ▸ hlast)
  · by_cases htag : field = .tag
    · subst htag
      have hne : Field.tag ≠ .id := by simp
      obtain ⟨hostname, hnot⟩ := exists_not_satisfied table id hne (hvalues t ht)
      refine hleft hostname .tag fun hasks => hnot (hasks _ ?_)
      exact ((hbuilt hostname).mem_tags _).mpr ⟨t, ht, hkey, rfl⟩
    · obtain rfl : field = .id := by
        by_contra hne
        exact hsingle ⟨hne, htag⟩
      refine hleft "" .id fun hasks => ?_
      rcases hasks with hnil | hmem
      · exact (hbuilt "").ids_eq_nil.mp hnil t ht hkey
      · exact hid hmem

theorem parseTerms_eq_ok (h : parseTerms expr = .ok terms) :
    (∀ t ∈ terms, t.value ≠ "") ∧ (terms = [] ↔ selectorText expr = "all".toList) := by
  unfold parseTerms at h
  dsimp only at h
  split at h
  · cases h
  next hnonempty =>
  split at h
  · next hall =>
    cases h
    simp [hall]
  · next hall =>
    have hrest : selectorText expr ≠ [] := fun hnil => hnonempty (.inr hnil)
    obtain ⟨n, hn⟩ := Nat.exists_eq_succ_of_ne_zero (length_pos_iff.mpr hrest).ne'
    rw [hn] at h
    constructor
    · exact tokenize_value h
    · exact iff_of_false (tokenize_ne_nil (exists_ne_space hrest) h) hall

theorem parse_eq_ok (h : (parse expr).1 = .ok f) :
    applyTerms .empty (termsOf expr) = .ok f ∧ (∀ t ∈ termsOf expr, t.value ≠ "") ∧
      (termsOf expr = [] ↔ selectorText expr = "all".toList) := by
  cases hparse : parseTerms expr with
  | error err => simp [parse, hparse] at h
  | ok terms =>
    have hterms : termsOf expr = terms := by simp [termsOf, hparse]
    rw [hterms]
    exact ⟨by simpa [parse, hparse] using h, parseTerms_eq_ok hparse⟩

/-- A selector is the conjunction of its terms, and only `all` matches every steward, exactly for
the stewards that meet the replaced terms, and all ID terms, whenever they meet the kept ones. -/
theorem selector_conjunction {expr : List Char} {f : Filter} (h : (parse expr).1 = .ok f)
    (s : Steward) :
    ((matchesFilter table s f ↔ ∀ t ∈ termsOf expr, matchesTerm table s t) ∧
      ((∀ s', matchesFilter table s' f) → selectorText expr = "all".toList)) ↔
      (MeetsKept table s (termsOf expr) → ∀ t ∈ termsOf expr, matchesTerm table s t) := by
  obtain ⟨happly, hvalues, hall⟩ := parse_eq_ok h
  have hmatches := (built_of_applyTerms table s hvalues happly).matches_iff table hvalues
  have hevery : (∀ s', matchesFilter table s' f) → selectorText expr = "all".toList := by
    intro hmatch
    by_contra hne
    obtain ⟨s', hs'⟩ := exists_stranger table hvalues happly fun hnil => hne (hall.mp hnil)
    exact hs' (hmatch s')
  constructor
  · rintro ⟨hconj, -⟩ hkept
    exact hconj.mp (hmatches.mpr hkept)
  · intro hcond
    refine ⟨?_, hevery⟩
    rw [hmatches]
    exact ⟨hcond, MeetsKept.of_all table⟩

def linuxWeb : Steward :=
  ⟨"steward-1", "acme", "online",
    (StringMap.empty.set ("os", "linux")).set ("tags", "production, web")⟩

def windowsHost : Steward :=
  ⟨"steward-2", "acme", "online", StringMap.empty.set ("os", "windows")⟩

theorem selector_conjunction_os_tag : ∃ f ∈ (parse "acme/os:linux tag:web".toList).1.toOption,
      matchesFilter .asciiOnly linuxWeb f ↔
        ∀ t ∈ termsOf "acme/os:linux tag:web".toList, matchesTerm .asciiOnly linuxWeb t := by
  have haccepted : (parse "acme/os:linux tag:web".toList).1.toBool = true := by decide +kernel
  cases hparse : (parse "acme/os:linux tag:web".toList).1 with
  | error err =>
    rw [hparse] at haccepted
    cases haccepted
  | ok f =>
    refine ⟨f, rfl, ((selector_conjunction .asciiOnly hparse linuxWeb).mpr ?_).1⟩
    intro _
    decide +kernel

/-- Two operating systems, of which the filter asks for the second alone. -/
theorem replaced_os_matched : ∃ f ∈ (parse "os:linux os:windows".toList).1.toOption,
      ¬ (matchesFilter .asciiOnly windowsHost f ↔
        ∀ t ∈ termsOf "os:linux os:windows".toList,
          matchesTerm .asciiOnly windowsHost t) := by
  decide +kernel

end Cfgms.Fleet
