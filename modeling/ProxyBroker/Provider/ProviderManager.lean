/-
ProxyBroker.Provider.ProviderManager — the registry of providers and its
two lookups (`ProviderManager`, `IProviderVariant`).

A provider class is registered once for every variant it has. `findAll`
compares the properties a query gives one by one, with `localeCompare`,
and takes `__all__` for any value. `get` fills `__all__` in for a missing
type and then asks for equal properties, so that `__all__` is a type like
any other to it.

* `map_findRefs` — references to what `findAll` gives, for a caller that
  changes what it is given;
* `mem_findAll_query`, `isSome_find_query_iff` — what the two lookups
  answer to a name and a type;
* `lookupsAgree_iff` — when they agree.

Name, type and url are texts where a provider has them (`Typed`).
`isEqual`, the deep comparison of two values that are no texts, and
`localeEq`, that `localeCompare` answers 0, are parameters. Left out: a
query for a property of another kind, which has no `localeCompare`, and
the options of `prepare`, which no lookup reads.
-/
import Mathlib.Data.List.AList
import ProxyBroker.Lib.PartialMatch
import ProxyBroker.Lib.JsText

namespace ProxyBroker.Provider

open Lib

abbrev Text := List Char

/-- `__ALL__` -/
def allTypes : Text := "__all__".toList

/-! ## Providers and queries -/

/-- A value of a property. -/
inductive Value (V : Type) where
  | undefined
  | str (s : Text)
  | other (v : V)
  deriving DecidableEq, Repr

abbrev Props (V : Type) := AList (fun _ : Text => Value V)

def nameKey : Text := "name".toList
def urlKey : Text := "url".toList
def typeKey : Text := "type".toList
def clazzKey : Text := "clazz".toList

/-- The properties that are texts. -/
def textKeys : List Text := [nameKey, typeKey, urlKey]

/-- No text property has another value. -/
def Typed {V : Type} (p : Props V) : Prop :=
  ∀ k ∈ textKeys, ∀ v, p.lookup k ≠ some (.other v)

theorem typed_empty {V : Type} : Typed (∅ : Props V) := by
  intro k _ v
  simp

theorem Typed.insert {V : Type} {p : Props V} (hp : Typed p) {k : Text} {w : Value V}
    (hw : k ∈ textKeys → ∀ v, w ≠ .other v) : Typed (p.insert k w) := by
  intro j hj v
  by_cases h : j = k
  · subst h
    rw [AList.lookup_insert, Ne, Option.some_inj]
    exact hw hj v
  · rw [AList.lookup_insert_ne h]
    exact hp j hj v

theorem Typed.union {V : Type} {p q : Props V} (hp : Typed p) (hq : Typed q) : Typed (p ∪ q) := by
  intro k hk v h
  rcases AList.lookup_union_eq_some.mp h with h | ⟨-, h⟩
  · exact hp k hk v h
  · exact hq k hk v h

/-- `IProviderVariant`; a provider in the registry, and a query for one,
are of this form too. -/
structure Variant (V : Type) where
  props : Props V
  typed : Typed props

variable {V : Type}

/-- `v[k]` as a text; a missing value is as false as the empty text. -/
def Variant.text (v : Variant V) (k : Text) : Text :=
  match v.props.lookup k with
  | some (.str s) => s
  | _ => []

theorem Variant.lookup_of_text {v : Variant V} {k : Text} (h : v.text k ≠ []) :
    v.props.lookup k = some (.str (v.text k)) := by
  unfold Variant.text at h ⊢
  split at h
  · rename_i s hs
    exact hs
  · exact absurd rfl h

theorem Variant.text_of_lookup {v : Variant V} {k s : Text}
    (h : v.props.lookup k = some (.str s)) : v.text k = s := by
  simp [Variant.text, h]

/-- `{}` -/
def Variant.empty : Variant V := ⟨∅, typed_empty⟩

/-- `v[k] = s` -/
def Variant.setText (v : Variant V) (k s : Text) : Variant V where
  props := v.props.insert k (.str s)
  typed := v.typed.insert (by simp)

@[simp] theorem Variant.not_mem_empty (k : Text) : k ∉ (empty : Variant V).props :=
  AList.notMem_empty k

@[simp] theorem Variant.mem_setText {v : Variant V} {j k s : Text} :
    j ∈ (v.setText k s).props ↔ j = k ∨ j ∈ v.props := AList.mem_insert _

@[simp] theorem Variant.text_empty (k : Text) : (empty : Variant V).text k = [] := by
  simp [text, empty]

@[simp] theorem Variant.text_setText_self (v : Variant V) (k s : Text) :
    (v.setText k s).text k = s := text_of_lookup (AList.lookup_insert _)

@[simp] theorem Variant.text_setText_ne (v : Variant V) {j k : Text} (h : j ≠ k) (s : Text) :
    (v.setText k s).text j = v.text j := by
  simp only [text, setText, AList.lookup_insert_ne h]

/-- An instance of a provider class, with the class. -/
structure IProvider (V : Type) where
  name : Text
  url : Text
  variants : Option (List (Variant V))
  clazz : V

/-- `{clazz: clazz}` -/
def IProvider.clazzOnly (tmp : IProvider V) : Variant V where
  props := (∅ : Props V).insert clazzKey (.other tmp.clazz)
  typed := typed_empty.insert fun h => absurd h (by decide)

/-- `{name: tmp.name, url: tmp.url, clazz: clazz}` -/
def IProvider.base (tmp : IProvider V) : Variant V :=
  (tmp.clazzOnly.setText urlKey tmp.url).setText nameKey tmp.name

/-- `{...base, ..._variant}` -/
def IProvider.extend (tmp : IProvider V) (variant : Variant V) : Variant V where
  props := variant.props ∪ tmp.base.props
  typed := variant.typed.union tmp.base.typed

/-- `addProviderClass` -/
def addProviderClass (providers : List (Variant V)) (tmp : IProvider V) : List (Variant V) :=
  match tmp.variants with
  | some variants => providers ++ variants.map tmp.extend
  | none => providers ++ [tmp.base.setText typeKey "all".toList]

/-- The registry after the classes were added in turn. -/
def register (classes : List (IProvider V)) : List (Variant V) :=
  classes.foldl addProviderClass []

/-- `{name: name}` or `{name: name, type: type}` -/
def query (name : Text) : Option Text → Variant V
  | none => Variant.empty.setText nameKey name
  | some type => (Variant.empty.setText nameKey name).setText typeKey type

/-! ## The lookups -/

section Lookups

variable (isEqual : V → V → Bool) (localeEq : Text → Text → Bool)

/-- How `_.find` compares two values. -/
def Value.agree : Value V → Value V → Bool
  | .undefined, .undefined => true
  | .str s, .str t => s = t
  | .other v, .other w => isEqual v w
  | _, _ => false

/-- `value` has the properties of `q`. -/
def isMatch (value q : Variant V) : Bool := covers (Value.agree isEqual) value.props q.props

/-- `_.find(this.providers, q)` -/
def find (providers : List (Variant V)) (q : Variant V) : Option (Variant V) :=
  providers.find? (isMatch isEqual · q)

/-- `if (!q.type) q.type = __ALL__` -/
def fillType (q : Variant V) : Variant V :=
  if q.text typeKey = [] then q.setText typeKey allTypes else q

/-- `get`, with the query as it leaves it. -/
def get (providers : List (Variant V)) (q : Variant V) : Option (Variant V) × Variant V :=
  (find isEqual providers (fillType q), fillType q)

/-- What `findAll` asks of one property. -/
def comparesAt (value query : Variant V) (k : Text) : Bool :=
  value.text k ≠ [] && query.text k ≠ [] &&
    (localeEq (value.text k) (query.text k) || query.text k = allTypes)

/-- The flag `_value` behind the loop over the keys of the query. -/
def compares (query value : Variant V) : Bool :=
  query.props.keys.all (comparesAt localeEq value query)

def findAll (providers : List (Variant V)) (query : Variant V) : List (Variant V) :=
  providers.filter (compares localeEq query)

/-- `findAll` as references into the registry. -/
def findRefs (providers : List (Variant V)) (query : Variant V) : List Nat :=
  (providers.zipIdx.filter fun p => compares localeEq query p.1).map Prod.snd

end Lookups

/-! ## What they answer -/

section Answers

variable {isEqual : V → V → Bool} {localeEq : Text → Text → Bool}

theorem nameKey_ne_typeKey : nameKey ≠ typeKey := by decide

@[simp] theorem mem_query (name : Text) (type : Option Text) (k : Text) :
    k ∈ (query name type : Variant V).props ↔ k = nameKey ∨ (k = typeKey ∧ type ≠ none) := by
  cases type <;> simp [query, or_comm]

@[simp] theorem text_query_name (name : Text) (type : Option Text) :
    (query name type : Variant V).text nameKey = name := by
  cases type <;> simp [query, nameKey_ne_typeKey]

@[simp] theorem text_query_type (name : Text) (type : Option Text) :
    (query name type : Variant V).text typeKey = type.getD [] := by
  cases type <;> simp [query, nameKey_ne_typeKey.symm]

/-- A property `value` for which a query may ask with `s`. -/
structure Agrees (localeEq : Text → Text → Bool) (value s : Text) : Prop where
  value_ne : value ≠ []
  query_ne : s ≠ []
  equal_or_all : localeEq value s = true ∨ s = allTypes

theorem comparesAt_iff {value q : Variant V} {k : Text} :
    comparesAt localeEq value q k = true ↔ Agrees localeEq (value.text k) (q.text k) := by
  simp only [comparesAt, Bool.and_eq_true, Bool.or_eq_true, decide_eq_true_eq]
  constructor
  · intro ⟨⟨hvalue, hquery⟩, hagree⟩
    exact ⟨hvalue, hquery, hagree⟩
  · intro ⟨hvalue, hquery, hagree⟩
    exact ⟨⟨hvalue, hquery⟩, hagree⟩

theorem mem_findAll {providers : List (Variant V)} {q d : Variant V} :
    d ∈ findAll localeEq providers q ↔
      d ∈ providers ∧ ∀ k ∈ q.props, Agrees localeEq (d.text k) (q.text k) := by
  simp only [findAll, compares, List.mem_filter, List.all_eq_true, comparesAt_iff, AList.mem_keys]

/-- The references are to what `findAll` gives. -/
theorem map_findRefs (providers : List (Variant V)) (q : Variant V) :
    (findRefs localeEq providers q).filterMap (providers[·]?) = findAll localeEq providers q := by
  have hread : (findRefs localeEq providers q).filterMap (providers[·]?) =
      (providers.zipIdx.filter fun p => compares localeEq q p.1).map Prod.fst := by
    rw [findRefs, List.filterMap_map, ← List.filterMap_eq_map]
    refine List.filterMap_congr fun p hp => ?_
    exact List.mem_zipIdx_iff_getElem?.mp (List.mem_filter.mp hp).1
  calc (findRefs localeEq providers q).filterMap (providers[·]?)
      = (providers.zipIdx.filter (compares localeEq q ∘ Prod.fst)).map Prod.fst := hread
    _ = (providers.zipIdx.map Prod.fst).filter (compares localeEq q) := List.filter_map.symm
    _ = findAll localeEq providers q := by rw [List.zipIdx_map_fst, findAll]

/-- **What `findAll` answers** to a name and a type. -/
theorem mem_findAll_query {providers : List (Variant V)} {name : Text} {type : Option Text}
    {d : Variant V} :
    d ∈ findAll localeEq providers (query name type) ↔
      d ∈ providers ∧ Agrees localeEq (d.text nameKey) name ∧
        ∀ t, type = some t → Agrees localeEq (d.text typeKey) t := by
  rw [mem_findAll]
  refine and_congr_right fun _ => ?_
  simp only [mem_query]
  constructor
  · intro h
    refine ⟨by simpa using h nameKey (.inl rfl), ?_⟩
    intro t ht
    simpa [ht] using h typeKey (.inr ⟨rfl, by simp [ht]⟩)
  · intro ⟨hname, htype⟩ k hk
    rcases hk with rfl | ⟨rfl, hne⟩
    · simpa using hname
    · obtain ⟨t, ht⟩ := Option.ne_none_iff_exists'.mp hne
      simpa [ht] using htype t ht

theorem agree_str_iff {v : Value V} {s : Text} : v.agree isEqual (.str s) = true ↔ v = .str s := by
  cases v <;> simp [Value.agree]

/-- What `_.find` asks of a provider, for a name and a type. -/
theorem isMatch_query_iff {name t : Text} (hname : name ≠ []) (ht : t ≠ []) {d : Variant V} :
    isMatch isEqual d (query name (some t)) = true ↔
      d.text nameKey = name ∧ d.text typeKey = t := by
  have hnameAt : (query name (some t) : Variant V).props.lookup nameKey = some (.str name) := by
    simpa using Variant.lookup_of_text (v := query name (some t)) (k := nameKey) (by simpa)
  have htypeAt : (query name (some t) : Variant V).props.lookup typeKey = some (.str t) := by
    simpa using Variant.lookup_of_text (v := query name (some t)) (k := typeKey) (by simpa)
  rw [isMatch, covers_iff]
  constructor
  · intro h
    obtain ⟨v, hv, hagree⟩ := h _ _ hnameAt
    obtain ⟨w, hw, hagree'⟩ := h _ _ htypeAt
    rw [agree_str_iff] at hagree hagree'
    subst hagree hagree'
    exact ⟨Variant.text_of_lookup hv, Variant.text_of_lookup hw⟩
  · intro ⟨hd, hd'⟩ k w hk
    have hmem : k ∈ (query name (some t) : Variant V).props :=
      AList.lookup_isSome.mp (by simp [hk])
    rcases (mem_query name (some t) k).mp hmem with rfl | ⟨rfl, -⟩
    · rw [hnameAt, Option.some_inj] at hk
      subst hk hd
      exact ⟨_, Variant.lookup_of_text hname, agree_str_iff.mpr rfl⟩
    · rw [htypeAt, Option.some_inj] at hk
      subst hk hd'
      exact ⟨_, Variant.lookup_of_text ht, agree_str_iff.mpr rfl⟩

/-- **What `get` answers** to a name and a type. -/
theorem isSome_find_query_iff {providers : List (Variant V)} {name t : Text} (hname : name ≠ [])
    (ht : t ≠ []) :
    (find isEqual providers (query name (some t))).isSome = true ↔
      ∃ d ∈ providers, d.text nameKey = name ∧ d.text typeKey = t := by
  simp only [find, List.find?_isSome, isMatch_query_iff hname ht]

theorem find_query_eq_some {providers : List (Variant V)} {name t : Text} {d : Variant V}
    (hname : name ≠ []) (ht : t ≠ [])
    (h : find isEqual providers (query name (some t)) = some d) :
    d ∈ providers ∧ d.text nameKey = name ∧ d.text typeKey = t := by
  have hmatch : isMatch isEqual d (query name (some t)) = true := by
    simpa using List.find?_some h
  exact ⟨List.mem_of_find?_eq_some h, (isMatch_query_iff hname ht).mp hmatch⟩

/-- A provider with just the name and the type is among what `findAll`
finds. -/
theorem mem_findAll_of_text {providers : List (Variant V)} {d : Variant V}
    (hrefl : ∀ s, localeEq s s = true) (hd : d ∈ providers) (hname : d.text nameKey ≠ [])
    (htype : d.text typeKey ≠ []) :
    d ∈ findAll localeEq providers (query (d.text nameKey) (some (d.text typeKey))) := by
  rw [mem_findAll_query]
  refine ⟨hd, ⟨hname, hname, .inl (hrefl _)⟩, ?_⟩
  intro t ht
  cases ht
  exact ⟨htype, htype, .inl (hrefl _)⟩

theorem fillType_of_text {q : Variant V} (h : q.text typeKey ≠ []) : fillType q = q :=
  if_neg h

theorem text_fillType_ne (q : Variant V) : (fillType q).text typeKey ≠ [] := by
  unfold fillType
  split
  · rw [Variant.text_setText_self]
    decide
  · assumption

end Answers

/-! ## When the lookups agree -/

section Agree

/-- Both lookups find something or neither does, `get` finds one of what
`findAll` finds and leaves the query as it is. -/
structure LookupsAgree (isEqual : V → V → Bool) (localeEq : Text → Text → Bool)
    (providers : List (Variant V)) (q : Variant V) : Prop where
  defined : (get isEqual providers q).1.isSome = true ↔ findAll localeEq providers q ≠ []
  member : ∀ d, (get isEqual providers q).1 = some d → d ∈ findAll localeEq providers q
  unchanged : (get isEqual providers q).2 = q

variable {isEqual : V → V → Bool} {localeEq : Text → Text → Bool}

/-- A query without a type is changed. -/
theorem not_lookupsAgree_of_none (providers : List (Variant V)) (name : Text) :
    ¬ LookupsAgree isEqual localeEq providers (query name none) := by
  intro h
  have hfilled := text_fillType_ne (query name none : Variant V)
  have hsame : fillType (query name none : Variant V) = query name none := h.unchanged
  simp [hsame] at hfilled

/-- With a type, what `get` finds is right; it remains that it finds
something where `findAll` does. -/
theorem lookupsAgree_some_iff (hrefl : ∀ s, localeEq s s = true) {providers : List (Variant V)}
    {name t : Text} (hname : name ≠ []) (ht : t ≠ []) :
    LookupsAgree isEqual localeEq providers (query name (some t)) ↔
      (findAll localeEq providers (query name (some t)) ≠ [] →
        ∃ d ∈ providers, d.text nameKey = name ∧ d.text typeKey = t) := by
  have hfill : fillType (query name (some t) : Variant V) = query name (some t) :=
    fillType_of_text (by simpa)
  constructor
  · intro ⟨hdefined, _, _⟩
    rw [get, hfill, isSome_find_query_iff hname ht] at hdefined
    exact hdefined.mpr
  · intro hexact
    refine ⟨?_, ?_, hfill⟩
    · rw [get, hfill, isSome_find_query_iff hname ht]
      refine ⟨?_, hexact⟩
      intro ⟨d, hd, hdname, hdtype⟩
      subst hdname hdtype
      exact List.ne_nil_of_mem (mem_findAll_of_text hrefl hd hname ht)
    · intro d hget
      rw [get, hfill] at hget
      obtain ⟨hd, rfl, rfl⟩ := find_query_eq_some hname ht hget
      exact mem_findAll_of_text hrefl hd hname ht

theorem findAll_query_ne_nil {providers : List (Variant V)} {name t : Text} :
    findAll localeEq providers (query name (some t)) ≠ [] ↔
      ∃ d ∈ providers, Agrees localeEq (d.text nameKey) name ∧
        Agrees localeEq (d.text typeKey) t := by
  constructor
  · intro hne
    obtain ⟨d, hd⟩ := List.exists_mem_of_ne_nil _ hne
    obtain ⟨hd, hagrees, hagrees'⟩ := mem_findAll_query.mp hd
    exact ⟨d, hd, hagrees, hagrees' t rfl⟩
  · intro ⟨d, hd, hagrees, hagrees'⟩
    refine List.ne_nil_of_mem (mem_findAll_query.mpr ⟨hd, hagrees, ?_⟩)
    intro u hu
    exact Option.some.inj hu ▸ hagrees'

/-- **The two lookups agree exactly if** the type is given and, where a
provider's name and type are what the query asks for up to `localeCompare`
and `__all__`, some provider's are equal to it. -/
theorem lookupsAgree_iff (hrefl : ∀ s, localeEq s s = true) (classes : List (IProvider V))
    (name : Text) (type : Option Text) (hname : name ≠ []) (htype : ∀ t, type = some t → t ≠ []) :
    LookupsAgree isEqual localeEq (register classes) (query name type) ↔
      ∃ t, type = some t ∧
        ((∃ d ∈ register classes, Agrees localeEq (d.text nameKey) name ∧
            Agrees localeEq (d.text typeKey) t) →
          ∃ d ∈ register classes, d.text nameKey = name ∧ d.text typeKey = t) := by
  cases type with
  | none => exact iff_of_false (not_lookupsAgree_of_none _ name) (by simp)
  | some t =>
      rw [lookupsAgree_some_iff hrefl hname (htype t rfl), findAll_query_ne_nil]
      simp only [Option.some.injEq, exists_eq_left']

/-- The provider `MockedProxies02` of the tests. -/
def mockedProxies02 : IProvider Nat where
  name := "mockproxy02".toList
  url := "http://localhost:8000/tada02".toList
  variants := some [Variant.empty.setText typeKey "http".toList]
  clazz := 2

/-- Its only variant, as registered. -/
def mockedVariant : Variant Nat :=
  mockedProxies02.extend (Variant.empty.setText typeKey "http".toList)

theorem lookupsAgree_http : LookupsAgree (· == ·) (· == ·) (register [mockedProxies02])
    (query "mockproxy02".toList (some "http".toList)) := by
  have hmem : mockedVariant ∈ register [mockedProxies02] := List.mem_singleton.mpr rfl
  have hname : mockedVariant.text nameKey = "mockproxy02".toList := by decide +kernel
  have htype : mockedVariant.text typeKey = "http".toList := by decide +kernel
  have hgiven : ∀ t, some "http".toList = some t → t ≠ [] := by
    intro t ht
    cases ht
    decide
  exact (lookupsAgree_iff (by simp) [mockedProxies02] _ _ (by decide) hgiven).mpr
    ⟨_, rfl, fun _ => ⟨mockedVariant, hmem, hname, htype⟩⟩

/-- Asked for the name alone, `findAll` finds the provider and `get` finds
none. -/
theorem not_lookupsAgree_name : ¬ LookupsAgree (· == ·) (· == ·) (register [mockedProxies02])
    (query "mockproxy02".toList none) := by
  intro h
  have hsome :
      findAll (· == ·) (register [mockedProxies02]) (query "mockproxy02".toList none) ≠ [] :=
    List.ne_nil_of_length_pos (by decide +kernel)
  have hnone : (get (· == ·) (register [mockedProxies02])
      (query "mockproxy02".toList none)).1.isSome = false := by decide +kernel
  rw [h.defined.mpr hsome] at hnone
  exact Bool.noConfusion hnone

end Agree

end ProxyBroker.Provider
