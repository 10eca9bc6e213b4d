/-
ProxyBroker.Provider.FetchTheorems — the fetch task with the provider of
freeproxylists.com.

`get` looks a variant up by all of its properties and may find another one
with more of them. This provider's variants have each a type of their own,
and only they have its name: none is shadowed (`unshadowed`). So the task
fetches with exactly the requested variants and returns what their sites
list (`exec_freeProxyLists`).

A worker has an instance of the provider of its own. A site that refuses a
page makes the task throw, and is left out here: the sites of the requested
variants are `Online`, each for its own worker.
-/
import ProxyBroker.Provider.FreeProxyListsCom
import ProxyBroker.Provider.ProxyFetchTask

namespace ProxyBroker.Provider

open Lib Lib.Matcher

namespace FreeProxyListsCom

/-! ## The provider in the registry -/

/-- The values of a registered variant that are no texts. -/
inductive Property where
  | pattern (load : Text)
  | flags (n : Nat)
  | clazz (name : Text)
  deriving DecidableEq, Repr

def pathKey : Text := "path".toList
def patternKey : Text := "pattern".toList
def pathLoadKey : Text := "path_load".toList
def flagsKey : Text := "flags".toList

def definitionProps (type path load : String) (flags : Nat) : Props Property :=
  (((((∅ : Props Property).insert typeKey (.str type.toList)).insert pathKey
    (.str path.toList)).insert patternKey (.other (.pattern load.toList))).insert pathLoadKey
    (.str load.toList)).insert flagsKey (.other (.flags flags))

theorem typed_definitionProps (type path load : String) (flags : Nat) :
    Typed (definitionProps type path load flags) :=
  ((((typed_empty.insert (by simp)).insert (by simp)).insert
    (fun h => absurd h (by decide))).insert (by simp)).insert (fun h => absurd h (by decide))

/-- `{type: type, path: path, pattern: pattern, path_load: load, flags: flags}` -/
def definition (type path load : String) (flags : Nat) : Variant Property :=
  ⟨definitionProps type path load flags, typed_definitionProps type path load flags⟩

def definitions : List (Variant Property) :=
  [definition "anonym" "anonymous.html" "anon" 1,
    definition "transparent" "non-anonymous.html" "nonanon" 1,
    definition "elite" "elite.html" "elite" 1,
    definition "https" "https.html" "https" 2,
    definition "standard" "standard.html" "standard" 2,
    definition "us" "us.html" "us" 1,
    definition "uk" "uk.html" "uk" 1,
    definition "ca" "ca.html" "ca" 1,
    definition "fr" "fr.html" "fr" 1]

def providerName : Text := "freeproxylists".toList

def provider : IProvider Property where
  name := providerName
  url := baseUrl
  variants := some definitions
  clazz := .clazz "FreeProxyListsCom".toList

def registered : List (Variant Property) := definitions.map provider.extend

/-- The variant that a worker selects. -/
def variantOfDef (v : Variant Property) : IProviderVariant where
  type := v.text typeKey
  path := v.text pathKey
  pattern :=
    match v.props.lookup patternKey with
    | some (.other (.pattern load)) => idMatcher load
    | _ => fun _ => []
  path_load := v.text pathLoadKey

theorem map_variantOfDef : registered.map variantOfDef = variants := rfl

theorem names_registered :
    registered.map (fun v => v.text nameKey) = List.replicate 9 providerName := rfl

theorem text_name_of_mem {v : Variant Property} (h : v ∈ registered) :
    v.text nameKey = providerName := by
  have hmem : v.text nameKey ∈ registered.map (fun v => v.text nameKey) := List.mem_map_of_mem h
  rw [names_registered] at hmem
  exact List.eq_of_mem_replicate hmem

theorem types_registered : (registered.map (fun v => v.text typeKey)).Nodup ∧
    [] ∉ registered.map (fun v => v.text typeKey) := by decide +kernel

theorem text_type_ne_of_mem {v : Variant Property} (h : v ∈ registered) : v.text typeKey ≠ [] := by
  intro hnil
  have hmem : v.text typeKey ∈ registered.map (fun v => v.text typeKey) := List.mem_map_of_mem h
  rw [hnil] at hmem
  exact types_registered.2 hmem

theorem eq_of_text_type {u v : Variant Property} (hu : u ∈ registered) (hv : v ∈ registered)
    (h : u.text typeKey = v.text typeKey) : u = v :=
  List.inj_on_of_nodup_map types_registered.1 hu hv h

end FreeProxyListsCom

/-! ## Looking a variant up by itself -/

section Lookup

variable {V : Type} {isEqual : V → V → Bool} {env : Env V} {task : ProxyFetchTask}

theorem text_of_isMatch {d v : Variant V} {k : Text} (h : isMatch isEqual d v = true)
    (hk : v.text k ≠ []) : d.text k = v.text k := by
  obtain ⟨w, hw, hagree⟩ := covers_iff.mp h k _ (Variant.lookup_of_text hk)
  rw [agree_str_iff.mp hagree] at hw
  exact Variant.text_of_lookup hw

theorem text_name_fillType (v : Variant V) : (fillType v).text nameKey = v.text nameKey := by
  unfold fillType
  split
  · exact Variant.text_setText_ne v nameKey_ne_typeKey allTypes
  · rfl

theorem text_name_settle (v : Variant V) : (settle env task v).text nameKey = v.text nameKey := by
  unfold settle
  split
  · exact text_name_fillType v
  · rfl

/-- Where only a variant itself has all of its properties, none is
shadowed. -/
theorem not_someShadowed {providers : List (Variant V)}
    (h : ∀ u ∈ providers, ∀ v ∈ providers, task.selects env v = true →
      isMatch env.isEqual (settle env task u) (fillType v) = true →
        settle env task u = fillType v) : ¬ SomeShadowed env task [] providers := by
  rintro ⟨l, v, r, hsplit, hselects, l₁, d, l₂, hl, -, hne, hmatch⟩
  have hd : d ∈ l.map (settle env task) := by
    rw [List.nil_append] at hl
    simp [hl]
  obtain ⟨u, hu, rfl⟩ := List.mem_map.mp hd
  exact hne (h u (by simp [hsplit, hu]) v (by simp [hsplit]) hselects hmatch)

end Lookup

/-! ## The registry -/

section Register

variable {V : Type}

theorem addProviderClass_append (providers : List (Variant V)) (tmp : IProvider V) :
    addProviderClass providers tmp = providers ++ addProviderClass [] tmp := by
  unfold addProviderClass
  cases tmp.variants <;> simp

theorem register_append (xs ys : List (IProvider V)) :
    register (xs ++ ys) = register xs ++ register ys := by
  have hfold (ys : List (IProvider V)) (providers : List (Variant V)) :
      ys.foldl addProviderClass providers = providers ++ register ys := by
    induction ys generalizing providers with
    | nil => simp [register]
    | cons y ys ih =>
        have hregister : register (y :: ys) = addProviderClass [] y ++ register ys :=
          ih (addProviderClass [] y)
        rw [List.foldl_cons, ih, addProviderClass_append, hregister, List.append_assoc]
  exact List.foldl_append.trans (hfold ys (register xs))

end Register

/-! ## The task -/

namespace FreeProxyListsCom

def fetchedEntry (data : IProxyData) : Option FetchedEntry := some ⟨some data.ip, some data.port⟩

/-- `ProviderWorker`: a provider of its own, with the variant selected;
`http` has the calls of the k-th worker. -/
def workerFetch (http : Nat → Nat → Text → Option Text) (k : Nat) (v : Variant Property) :
    List (Option FetchedEntry) :=
  ((get (http k) none { variant := some (variantOfDef v) }).result.getD []).map fetchedEntry

/-- What the site of a variant lists. -/
def rows (sites : ∀ v, Site v) (v : IProviderVariant) : List IProxyData :=
  ((sites v).lists.flatMap entries).eraseDups

/-- The calls of a worker for its site are answered, and no list is
refused. -/
def Answers (http : Nat → Text → Option Text) {v : IProviderVariant} (site : Site v) : Prop :=
  Serves http site ∧ site.lists.length = site.ids.length

/-- So it is for every worker, the k-th having the k-th of these variants. -/
def Online (http : Nat → Nat → Text → Option Text) (sites : ∀ v, Site v)
    (vs : List (Variant Property)) : Prop :=
  ∀ k v, vs[k]? = some v → Answers (http k) (sites (variantOfDef v))

variable {http : Nat → Nat → Text → Option Text} {sites : ∀ v, Site v}

theorem workerFetch_eq {k : Nat} {v : Variant Property}
    (honline : Answers (http k) (sites (variantOfDef v))) (hv : v ∈ registered) :
    workerFetch http k v = (rows sites (variantOfDef v)).map fetchedEntry := by
  have hmem : variantOfDef v ∈ variants := map_variantOfDef ▸ List.mem_map_of_mem hv
  obtain ⟨hserves, hcomplete⟩ := honline
  rw [workerFetch, get_served (http k) _ rfl hmem hserves]
  simp [hcomplete, rows, pushAll_eq]

/-- What the workers from the n-th on fetch are the rows of their sites. -/
theorem fetchedFrom_eq {env : Env Property} (hfetch : env.fetch = workerFetch http) {n : Nat}
    {vs : List (Variant Property)}
    (honline : ∀ k v, vs[k]? = some v → Answers (http (n + k)) (sites (variantOfDef v)))
    (hvs : ∀ v ∈ vs, v ∈ registered) :
    fetchedFrom env n vs =
      (vs.flatMap (fun v => rows sites (variantOfDef v))).map fetchedEntry := by
  induction vs generalizing n with
  | nil => rfl
  | cons v vs ih =>
      have hv : workerFetch http n v = _ :=
        workerFetch_eq (honline 0 v rfl) (hvs v List.mem_cons_self)
      have honline' : ∀ k w, vs[k]? = some w →
          Answers (http (n + 1 + k)) (sites (variantOfDef w)) := by
        intro k w hw
        have hnext := honline (k + 1) w hw
        rwa [show n + (k + 1) = n + 1 + k by omega] at hnext
      have hrest := ih honline' (fun w hw => hvs w (List.mem_cons_of_mem v hw))
      rw [fetchedFrom_cons, hrest, hfetch, hv, List.flatMap_cons, List.map_append]

section Task

variable {env : Env Property} {task : ProxyFetchTask}

theorem selects_iff (htask : task.provider = providerName) {v : Variant Property} :
    task.selects env v = true ↔
      (v.text nameKey ≠ [] ∧ env.localeEq (v.text nameKey) providerName = true) ∧
        task.requests v = true := by
  have hfind : compares env.localeEq (query providerName none) v = true ↔
      v ∈ findAll env.localeEq [v] (query providerName none) := by
    simp [findAll]
  have hname : providerName ≠ [] := by decide
  have hall : providerName ≠ allTypes := by decide
  rw [ProxyFetchTask.selects, htask, Bool.and_eq_true, hfind, mem_findAll_query]
  refine and_congr_left fun _ => ?_
  constructor
  · rintro ⟨_, hagrees, _⟩
    exact ⟨hagrees.value_ne, hagrees.equal_or_all.resolve_right hall⟩
  · rintro ⟨hne, hequal⟩
    exact ⟨List.mem_singleton_self v, ⟨hne, hname, .inl hequal⟩, by simp⟩

theorem selects_of_mem (htask : task.provider = providerName)
    (hlocale : ∀ s, env.localeEq s s = true) {v : Variant Property} (hv : v ∈ registered) :
    task.selects env v = task.requests v := by
  have hname : providerName ≠ [] := by decide
  rw [Bool.eq_iff_iff, selects_iff htask, text_name_of_mem hv]
  exact and_iff_right ⟨hname, hlocale _⟩

theorem fillType_of_mem {v : Variant Property} (hv : v ∈ registered) : fillType v = v :=
  fillType_of_text (text_type_ne_of_mem hv)

theorem settle_of_mem {v : Variant Property} (hv : v ∈ registered) : settle env task v = v := by
  unfold settle
  split
  · exact fillType_of_mem hv
  · rfl

variable {before behind : List (IProvider Property)}

theorem register_eq : register (before ++ provider :: behind) =
    register before ++ (registered ++ register behind) := by
  have hone : register [provider] = registered := rfl
  rw [← List.singleton_append, register_append, register_append, hone]

/-- No other provider has the name. -/
def Apart (env : Env Property) (before behind : List (IProvider Property)) : Prop :=
  ∀ v ∈ register before ++ register behind, env.localeEq (v.text nameKey) providerName = false

theorem mem_register_cases {v : Variant Property}
    (hv : v ∈ register (before ++ provider :: behind)) :
    v ∈ registered ∨ v ∈ register before ++ register behind := by
  rw [register_eq] at hv
  simp only [List.mem_append] at hv ⊢
  rcases hv with hv | hv | hv
  · exact .inr (.inl hv)
  · exact .inl hv
  · exact .inr (.inr hv)

theorem requested_eq_filter (htask : task.provider = providerName)
    (hlocale : ∀ s, env.localeEq s s = true) (hapart : Apart env before behind) :
    requested env task (register (before ++ provider :: behind)) =
      registered.filter task.requests := by
  have hothers : ∀ vs : List (Variant Property),
      (∀ v ∈ vs, env.localeEq (v.text nameKey) providerName = false) →
        vs.filter (task.selects env) = [] := by
    intro vs hvs
    rw [List.filter_eq_nil_iff]
    intro v hv hselects
    rw [selects_iff htask, hvs v hv] at hselects
    exact Bool.noConfusion hselects.1.2
  have hbefore := hothers (register before) (fun v hv => hapart v (List.mem_append_left _ hv))
  have hbehind := hothers (register behind) (fun v hv => hapart v (List.mem_append_right _ hv))
  have hours : registered.filter (task.selects env) = registered.filter task.requests :=
    List.filter_congr (fun v hv => selects_of_mem htask hlocale hv)
  rw [requested, register_eq, List.filter_append, List.filter_append, hbefore, hbehind, hours,
    List.nil_append, List.append_nil]
  refine (List.map_congr_left ?_).trans (List.map_id _)
  exact fun v hv => fillType_of_mem (List.mem_of_mem_filter hv)

theorem unshadowed (htask : task.provider = providerName)
    (hlocale : ∀ s, env.localeEq s s = true) (hapart : Apart env before behind) :
    ¬ SomeShadowed env task [] (register (before ++ provider :: behind)) := by
  have hname : providerName ≠ [] := by decide
  refine not_someShadowed ?_
  intro u hu v hv hselects hmatch
  have hv' : v ∈ registered := by
    refine (mem_register_cases hv).resolve_right (fun hother => ?_)
    rw [selects_iff htask, hapart v hother] at hselects
    exact Bool.noConfusion hselects.1.2
  have htext := text_name_of_mem hv'
  rw [fillType_of_mem hv'] at hmatch ⊢
  have hutext : u.text nameKey = providerName := by
    rw [← text_name_settle u, text_of_isMatch hmatch (htext ▸ hname), htext]
  have hu' : u ∈ registered := by
    refine (mem_register_cases hu).resolve_right (fun hother => ?_)
    have hequal := hapart u hother
    rw [hutext, hlocale] at hequal
    exact Bool.noConfusion hequal
  rw [settle_of_mem hu'] at hmatch ⊢
  exact eq_of_text_type hu' hv' (text_of_isMatch hmatch (text_type_ne_of_mem hv'))

/-- **What the task fetches from freeproxylists.com**, whatever other
providers are registered, if no page of a requested variant is refused:
every requested variant has a worker, in their order, and the task returns
the rows of their sites, as far as its filter keeps them. -/
theorem exec_freeProxyLists (hrefl : ∀ v, env.isEqual v v = true)
    (hlocale : ∀ s, env.localeEq s s = true) (htask : task.provider = providerName)
    (hapart : Apart env before behind) (hfetch : env.fetch = workerFetch http)
    (honline : Online http sites (registered.filter task.requests)) :
    ∃ outcome, exec env task (register (before ++ provider :: behind)) = some outcome ∧
      outcome.run.workers = registered.filter task.requests ∧
      outcome.run.proxies = (((registered.filter task.requests).flatMap
        (fun v => rows sites (variantOfDef v))).map fetchedEntry).filter env.keeps ∧
      ∀ p, outcome.validation = some p → p.1 = outcome.run.proxies := by
  obtain ⟨outcome, hexec, hworkers, hproxies, hvalidation⟩ :=
    @exec_eq Property env task hrefl (register (before ++ provider :: behind))
  have hlookups : lookups env task [] (register (before ++ provider :: behind)) =
      registered.filter task.requests :=
    ((lookups_eq_iff hrefl [] _).mpr (unshadowed htask hlocale hapart)).trans
      (requested_eq_filter htask hlocale hapart)
  have hfetched : fetchedFrom env 0 (registered.filter task.requests) = _ :=
    fetchedFrom_eq hfetch (fun k v hv => (Nat.zero_add k).symm ▸ honline k v hv)
      (fun v hv => List.mem_of_mem_filter hv)
  rw [hlookups] at hworkers hproxies
  exact ⟨outcome, hexec, hworkers, hproxies.trans (by rw [hfetched]), hvalidation⟩

end Task

theorem spaced_small (load : Text) :
    Spaced (Link.row load) "/>".toList [("<a ".toList, ⟨true, exampleRow.first, true⟩)] :=
  ⟨quiet_of_not_mem (not_mem_of_contains rfl), fun _ _ => rfl,
    quiet_of_not_mem (not_mem_of_contains rfl)⟩

/-- A site with one link, to a list with one address. -/
def smallSite (v : IProviderVariant) : Site v where
  index := ⟨[("<a ".toList, ⟨true, exampleRow.first, true⟩)], "/>".toList, spaced_small _⟩
  lists := [⟨[("<b>".toList, exampleRow)], "/b".toList, by decide +kernel⟩]

def smallHttp : Nat → Nat → Text → Option Text
  | _, 0, url =>
      (variants.find? (fun v => indexUrl v = url)).map (fun v => (smallSite v).index.text)
  | _, _, _ => some "<b>&gt;10.10.10.10&lt;/td&gt;&lt;td&gt;10&lt;/b".toList

theorem find_indexUrl {v : IProviderVariant} (hv : v ∈ variants) :
    variants.find? (fun w => indexUrl w = indexUrl v) = some v := by
  have hnodup : (variants.map indexUrl).Nodup := by decide +kernel
  cases hfind : variants.find? (fun w => indexUrl w = indexUrl v) with
  | none =>
      rw [List.find?_eq_none] at hfind
      exact absurd (by simp) (hfind v hv)
  | some w =>
      have hw : indexUrl w = indexUrl v := by simpa using List.find?_some hfind
      rw [List.inj_on_of_nodup_map hnodup (List.mem_of_find?_eq_some hfind) hv hw]

theorem online_small {vs : List (Variant Property)} (hvs : ∀ v ∈ vs, v ∈ registered) :
    Online smallHttp smallSite vs := by
  intro k v hv
  have hmem : variantOfDef v ∈ variants :=
    map_variantOfDef ▸ List.mem_map_of_mem (hvs v (List.mem_of_getElem? hv))
  have hindex : smallHttp k 0 (indexUrl (variantOfDef v)) =
      some (smallSite (variantOfDef v)).index.text := by
    rw [smallHttp, find_indexUrl hmem, Option.map_some]
  exact ⟨⟨hindex, .list rfl .done⟩, rfl⟩

def smallEnv : Env Property where
  isEqual := (· == ·)
  localeEq := (· == ·)
  ipRegex := isDottedQuad
  fetch := workerFetch smallHttp

/-- Two variants are asked for. -/
theorem exec_freeProxyLists_two :
    ∃ outcome, exec smallEnv { provider := providerName, variants := ["uk".toList, "fr".toList] }
        (register [provider]) = some outcome ∧
      outcome.run.proxies = List.replicate 2 (fetchedEntry ⟨"10.10.10.10".toList, 10⟩) := by
  obtain ⟨outcome, hexec, -, hproxies, -⟩ := @exec_freeProxyLists smallHttp smallSite smallEnv
    { provider := providerName, variants := ["uk".toList, "fr".toList] } [] []
    (by simp [smallEnv]) (by simp [smallEnv]) rfl (by intro v hv; cases hv) rfl
    (online_small (fun v hv => List.mem_of_mem_filter hv))
  refine ⟨outcome, hexec, hproxies.trans ?_⟩
  decide +kernel

end FreeProxyListsCom

end ProxyBroker.Provider
