/-
ProxyBroker.Proxy.SelectionTheorems — which selection headers decide
which proxy is handed out.

The regular expression of `parseProxyHeader` asks for a backslash behind
`proxy`, and the name it makes of a header that has one still starts
with `proxy` and a backslash (`parse_keys`). So the selector `take` gets
has no level and no speed limit, and it never asks for a country; what
it does have is `targetSSL` (`parse_targetSSL`).

`selection_honoured_iff`: every entry `next` hands out meets the criteria
of the headers, for every reachable list, exactly when the headers carry
none that keeps an entry away. Of the values a level or a speed limit
can have only Infinity does not (`le_beyond_headerValue`).
-/
import ProxyBroker.Lib.Decimal
import ProxyBroker.Proxy.ProxyRotatorTheorems

namespace ProxyBroker.Proxy

open Lib Server

/-! ## The criteria of a request -/

structure Criteria where
  level : Option JsValue := none
  speedLimit : Option JsValue := none
  country : Option Text := none
  deriving DecidableEq, Repr

def kSelectLevel : Text := "proxy-select-level".toList
def kSelectSpeedLimit : Text := "proxy-select-speed-limit".toList
def kSelectCountry : Text := "proxy-select-country".toList

/-- The criteria a lower-cased header map carries: every header that is
given makes one, its value read as `parseProxyHeader` reads it. -/
def criteriaOf (headers : List (Text × Text)) : Criteria where
  level := (headers.lookup kSelectLevel).map (fun s => headerValue (.str s))
  speedLimit := (headers.lookup kSelectSpeedLimit).map (fun s => headerValue (.str s))
  country := headers.lookup kSelectCountry

/-- An entry is what the request asked for. A value that is no number
lets no entry pass. -/
structure Satisfies (c : Criteria) (targetSSL : Bool) (e : IpAddr) : Prop where
  level : ∀ v, c.level = some v → JsValue.le e.state.level v = true
  speedLimit : ∀ v, c.speedLimit = some v → JsValue.le e.state.duration v = true
  country : ∀ x, c.country = some x → e.country = some x
  protocolDest : e.state.protocolDest = .https ↔ targetSSL = true

/-- No level and no speed limit is given but Infinity, and no country. -/
def asksNothing (headers : List (Text × Text)) : Bool :=
  (headers.lookup kSelectLevel).all JsValue.isInfinity &&
    (headers.lookup kSelectSpeedLimit).all JsValue.isInfinity &&
    (headers.lookup kSelectCountry).isNone

def LowerCased (headers : List (Text × Text)) : Prop :=
  ∀ h ∈ headers, ∀ c ∈ h.1, c.isUpper = false

instance (headers : List (Text × Text)) : Decidable (LowerCased headers) :=
  decidable_of_iff (headers.all (fun h => h.1.all (fun c => !c.isUpper)) = true)
    (by simp [LowerCased])

/-! ## What a value bounds -/

theorem headerValue_of_isInfinity {s : Text} (h : JsValue.isInfinity s = true) :
    headerValue (.str s) = .str s := by
  have hdigits : ¬ s.any Char.isDigit = true := by
    intro hany
    obtain ⟨c, hc, hdigit⟩ := List.any_eq_true.mp hany
    have hmem := JsText.mem_trim hc (Decimal.isSpace_of_isDigit hdigit)
    simp only [JsValue.isInfinity, Bool.or_eq_true, decide_eq_true_eq] at h
    have hnone : ∀ t : Text, t.all (fun x => !x.isDigit) = true → JsText.trim s ≠ t := by
      rintro t ht rfl
      simpa [hdigit] using List.all_eq_true.mp ht c hmem
    rcases h with h | h
    · exact hnone _ (by decide) h
    · exact hnone _ (by decide) h
  have htrue : s ≠ "true".toList := by
    rintro rfl
    exact absurd h (by decide)
  have hfalse : s ≠ "false".toList := by
    rintro rfl
    exact absurd h (by decide)
  rw [headerValue, if_neg htrue, if_neg hfalse, if_neg hdigits]

/-- There is a number that a selection header keeps away, unless its
value is Infinity. -/
theorem le_beyond_headerValue {s : Text}
    (h : JsValue.le (JsValue.beyond (headerValue (.str s))) (headerValue (.str s)) = true) :
    JsValue.isInfinity s = true := by
  simp only [headerValue] at h
  split at h
  · rw [JsValue.not_le_beyond_bool] at h
    cases h
  · split at h
    · rw [JsValue.not_le_beyond_bool] at h
      cases h
    · split at h
      · rcases JsValue.parseInt_num_or_nan s with ⟨m, hm⟩ | hm
        · rw [hm, JsValue.not_le_beyond_num] at h
          cases h
        · rw [hm] at h
          cases h
      · rename_i hdigits
        exact (JsValue.leText_one_iff (Bool.not_eq_true _ ▸ hdigits)).mp h

/-! ## What becomes of the headers -/

/-- What every recognised name starts with. -/
def proxyBackslash : Text := "proxy\\".toList

/-- Taking `proxy-select-` out of a recognised name does not touch its
start: an occurrence there would have to cover the backslash. -/
theorem replaceFirst_select {k : Text} (h : selectPattern <+: k) :
    proxyBackslash <+: replaceFirst proxySelect [] k := by
  have hk : proxyBackslash <+: k := (show proxyBackslash <+: selectPattern by decide).trans h
  unfold replaceFirst
  cases hidx : indexOf? proxySelect k with
  | none => exact hk
  | some i =>
      have hi : 6 ≤ i := by
        obtain ⟨t, ht⟩ := ((indexOf?_eq_some_iff (by decide)).mp hidx).1
        obtain ⟨r, hr⟩ := hk
        by_contra hlt
        have h5 : k[5]? = some '\\' := by
          rw [← hr, List.getElem?_append_left (by decide)]
          rfl
        have hlen : 5 - i < proxySelect.length := Nat.lt_of_le_of_lt (Nat.sub_le 5 i) (by decide)
        have hpat : proxySelect[5 - i]? = some '\\' := by
          rw [← List.getElem?_append_left hlen, ht, List.getElem?_drop,
            show i + (5 - i) = 5 by omega, h5]
        exact absurd (List.mem_of_getElem? hpat) (by decide)
      show proxyBackslash <+: k.take i ++ [] ++ _
      rw [List.append_nil]
      refine List.IsPrefix.trans ?_ (List.prefix_append _ _)
      rw [List.prefix_take_iff]
      exact ⟨hk, hi⟩

/-- The names in a parsed selector. -/
def Parsed (k : Text) : Prop := k = kTargetSSL ∨ proxyBackslash <+: k

theorem parseEntry_keys {acc : Object} (hacc : ∀ k ∈ acc.keys, Parsed k)
    (entry : Text × JsValue) : ∀ k ∈ (parseEntry acc entry).keys, Parsed k := by
  intro k hk
  unfold parseEntry at hk
  split at hk
  · rename_i hselect
    rcases Object.keys_set_subset _ _ _ k hk with rfl | hk
    · exact .inr (replaceFirst_select (List.isPrefixOf_iff_prefix.mp hselect))
    · exact hacc k hk
  · split at hk
    · rcases Object.keys_set_subset _ _ _ k hk with rfl | hk
      · exact .inl rfl
      · exact hacc k hk
    · exact hacc k hk

theorem parse_keys (o : Object) : ∀ k ∈ (parseProxyHeader o).keys, Parsed k := by
  unfold parseProxyHeader
  have key : ∀ acc : Object, (∀ k ∈ acc.keys, Parsed k) →
      ∀ k ∈ (o.foldl parseEntry acc).keys, Parsed k := by
    induction o with
    | nil => intro acc hacc; exact hacc
    | cons entry o ih => intro acc hacc; exact ih _ (parseEntry_keys hacc entry)
  exact key [] (by simp [Object.keys])

/-- No header makes a level or a speed limit. -/
theorem parse_get_criteria (o : Object) :
    (parseProxyHeader o).get kLevel = .undefined ∧
      (parseProxyHeader o).get kSpeedLimit = .undefined := by
  refine ⟨Object.get_of_not_mem ?_, Object.get_of_not_mem ?_⟩
  · intro h
    rcases parse_keys o _ h with h | h
    · exact absurd h (by decide)
    · exact absurd h (by decide)
  · intro h
    rcases parse_keys o _ h with h | h
    · exact absurd h (by decide)
    · exact absurd h (by decide)

/-- A header named 'ssl' does not get through: the flag the server set
comes behind it. -/
theorem parse_targetSSL {headers : List (Text × Text)} (hlower : LowerCased headers)
    (targetSSL : Bool) :
    (parseProxyHeader (selectorOf headers targetSSL)).get kTargetSSL = .bool targetSSL := by
  have hnot : kTargetSSL ∉ Object.keys (headers.map (fun h => (h.1, JsValue.str h.2))) := by
    intro hmem
    simp only [Object.keys, List.map_map, List.mem_map, Function.comp_apply] at hmem
    obtain ⟨h, hh, hkey⟩ := hmem
    have := hlower h hh 'S' (by rw [hkey]; decide)
    exact absurd this (by decide)
  unfold selectorOf parseProxyHeader
  rw [Object.set_of_not_mem hnot, List.foldl_append, List.foldl_cons, List.foldl_nil, parseEntry,
    if_neg (show ¬ selectPattern.isPrefixOf kTargetSSL = true by decide), if_pos (.inr rfl),
    Object.get_set_self]

/-- The selector of a request: nothing but the destination protocol. -/
theorem selectorMatches_parse {headers : List (Text × Text)} (hlower : LowerCased headers)
    (targetSSL : Bool) (state : IpAddrState) :
    selectorMatches (parseProxyHeader (selectorOf headers targetSSL)) state =
      decide (state.protocolDest = .https ↔ targetSSL = true) := by
  obtain ⟨hlevel, hspeed⟩ := parse_get_criteria (selectorOf headers targetSSL)
  unfold selectorMatches
  rw [hlevel, hspeed, parse_targetSSL hlower]
  cases targetSSL <;> cases hdest : state.protocolDest <;> simp [JsValue.truthy]

namespace Rotator

/-! ## What `next` hands out -/

/-- The destination protocol is always honoured. -/
theorem next_protocolDest {headers : List (Text × Text)} (hlower : LowerCased headers)
    {targetSSL : Bool} {s : Rotator} {e : Ref}
    (h : s.next (selectorOf headers targetSSL) = some e) :
    (s.heap e).state.protocolDest = .https ↔ targetSSL = true := by
  have helig := List.find?_some h
  simp only [eligible, Bool.and_eq_true, selectorMatches_parse hlower, decide_eq_true_eq] at helig
  exact helig.2

/-- An entry that falls short of every criterion there is. -/
def shortOf (c : Criteria) (targetSSL : Bool) : IpAddr where
  ip := exampleAddr.ip
  port := exampleAddr.port
  state :=
    { protocolSrc := .http
      protocolDest := if targetSSL then .https else .http
      level := (c.level.map JsValue.beyond).getD 0
      duration := (c.speedLimit.map JsValue.beyond).getD 0 }

/-- A header that lets the number beyond it pass is Infinity, or not
there. -/
theorem isInfinity_of_le_beyond {o : Option Text}
    (h : ∀ v, o.map (fun s => headerValue (.str s)) = some v →
      JsValue.le (((o.map (fun s => headerValue (.str s))).map JsValue.beyond).getD 0) v = true) :
    o.all JsValue.isInfinity = true := by
  cases o with
  | none => rfl
  | some s => exact le_beyond_headerValue (h _ rfl)

theorem not_satisfies_shortOf {headers : List (Text × Text)} {targetSSL : Bool}
    (h : Satisfies (criteriaOf headers) targetSSL (shortOf (criteriaOf headers) targetSSL)) :
    asksNothing headers = true := by
  have hlevel := @isInfinity_of_le_beyond (headers.lookup kSelectLevel) h.level
  have hspeed := @isInfinity_of_le_beyond (headers.lookup kSelectSpeedLimit) h.speedLimit
  have hcountry : (headers.lookup kSelectCountry).isNone = true := by
    cases hc : headers.lookup kSelectCountry with
    | none => rfl
    | some x => cases h.country x hc
  rw [asksNothing, hlevel, hspeed, hcountry]
  rfl

/-- A header that is Infinity, or not there, lets every number pass. -/
theorem le_of_isInfinity {o : Option Text} (h : o.all JsValue.isInfinity = true) (n : Int)
    {v : JsValue} (hv : o.map (fun s => headerValue (.str s)) = some v) :
    JsValue.le n v = true := by
  cases o with
  | none => cases hv
  | some s =>
      rw [Option.map_some, headerValue_of_isInfinity h, Option.some.injEq] at hv
      rw [← hv]
      exact JsValue.leText_of_isInfinity h n

/-- Such an entry, checked two seconds ago. -/
def shortState (c : Criteria) (targetSSL : Bool) : Rotator where
  heap _ := listed 0 (shortOf c targetSSL)
  activeList := [0]
  clock := 2000

theorem shortState_reachable (options : RotatorOptions) (c : Criteria) (targetSSL : Bool) :
    (machine options).Reachable Initial (shortState c targetSSL) := by
  refine ⟨{ heap := fun _ => listed 0 (shortOf c targetSSL) }, [.doSucceeded 0, .tick 2000],
    ⟨rfl, rfl⟩, ?_⟩
  have hheap : Function.update (fun _ : Ref => listed 0 (shortOf c targetSSL)) 0
      (listed 0 (listed 0 (shortOf c targetSSL))) = fun _ => listed 0 (shortOf c targetSSL) :=
    Function.update_eq_self 0 _
  show some _ = some _
  simp [doSucceeded, findActiveEntry, modify, hheap, shortState]

theorem shortState_next {headers : List (Text × Text)} (hlower : LowerCased headers)
    (c : Criteria) (targetSSL : Bool) :
    (shortState c targetSSL).next (selectorOf headers targetSSL) = some 0 := by
  have helig : (shortState c targetSSL).eligible
      (parseProxyHeader (selectorOf headers targetSSL)) 0 = true := by
    unfold eligible
    simp only [selectorMatches_parse hlower]
    cases targetSSL <;> simp [shortState, listed, shortOf]
  unfold next found
  rw [show (shortState c targetSSL).activeList = [0] from rfl, List.find?_cons, helig]

/-- **When selection headers are honoured.** Every entry the fast path
hands out meets the criteria of a lower-cased header map, in every
reachable state, exactly when the headers carry no country, and no level
and no speed limit but Infinity. -/
theorem selection_honoured_iff (headers : List (Text × Text)) (targetSSL : Bool)
    (hlower : LowerCased headers) :
    (∀ options s e, (machine options).Reachable Initial s →
      s.next (selectorOf headers targetSSL) = some e →
      Satisfies (criteriaOf headers) targetSSL (s.heap e)) ↔ asksNothing headers = true := by
  constructor
  · intro h
    have hshort := h {} _ 0 (shortState_reachable {} (criteriaOf headers) targetSSL)
      (shortState_next hlower _ targetSSL)
    refine @not_satisfies_shortOf _ targetSSL ?_
    exact ⟨hshort.level, hshort.speedLimit, hshort.country, hshort.protocolDest⟩
  · intro hnone options s e _ hnext
    simp only [asksNothing, Bool.and_eq_true, Option.isNone_iff_eq_none] at hnone
    obtain ⟨⟨hlevel, hspeed⟩, hcountry⟩ := hnone
    refine ⟨fun v hv => le_of_isInfinity hlevel _ hv, fun v hv => le_of_isInfinity hspeed _ hv, ?_,
      next_protocolDest hlower hnext⟩
    intro x hx
    rw [criteriaOf, hcountry] at hx
    cases hx

theorem selection_honoured_plain :
    Satisfies (criteriaOf [("accept".toList, "text/html".toList)]) true
      ((shortState {} true).heap 0) :=
  (selection_honoured_iff [("accept".toList, "text/html".toList)] true (by decide)).mpr (by decide)
    {} _ 0 (shortState_reachable {} {} true) (shortState_next (by decide) {} true)

/-- `Proxy-Select-Level: 1` does not keep a proxy of level 2 away. -/
theorem not_selection_honoured_level :
    ¬ ∀ options s e, (machine options).Reachable Initial s →
      s.next (selectorOf [("proxy-select-level".toList, "1".toList)] false) = some e →
      Satisfies (criteriaOf [("proxy-select-level".toList, "1".toList)]) false (s.heap e) := by
  intro h
  have hlevel := (h {} _ 0 (shortState_reachable {} { level := some (.num 1) } false)
    (shortState_next (by decide) _ false)).level (.num 1) (by decide)
  exact absurd hlevel (by decide)

end Rotator

end ProxyBroker.Proxy
