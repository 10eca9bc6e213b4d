/-
ProxyBroker.Judge.RequestsTheorems — every request is accounted for when
`performRequest` gets as far as its monitor.

The second part of `handleRequest` reads the result out of the monitor,
behind a `try` that is already closed. When `performRequest` has rejected
there is no monitor: `handleRequest` rejects, its request stays in the
cache and the validation comes back without the variant.

* `Ledger` — the cache holds what it held and the requests in flight,
  but for what others have removed; kept by every step that does not go
  on from a rejection;
* `Books` — the variants of a validation are those of its calls that have
  returned; kept by every step;
* `accounted_iff` — the runs in which every request is accounted for.
-/
import Mathlib.Data.List.Perm.Basic
import ProxyBroker.Judge.Requests

namespace ProxyBroker.Judge

open Lib Server Proxy

namespace Requests

variable {ids : Nat → Text} {s0 s t : Requests}

/-! ## What is said of a state -/

def HandleRequest.pair (h : HandleRequest) : ProtocolType × ProtocolType :=
  (h.protocolFrom, h.protocolTo)

def variantPair (r : JudgeResult) : ProtocolType × ProtocolType := (r.protocolFrom, r.protocolTo)

/-- The promise of the call is resolved. -/
def HandleRequest.returned (h : HandleRequest) : Bool :=
  match h.outcome with
  | some (.ok _) => true
  | _ => false

/-- What the calls that have not settled have put into the cache. -/
def inFlight (handles : List HandleRequest) : List (Text × Nat) :=
  (handles.filter (fun h => h.outcome.isNone)).map (fun h => (h.id, h.request))

/-- The removals that took nothing away: `cache` has the names of every
object. -/
def idle (removed : List Text) : Nat := removed.countP ServerConnection.objectPrototype.contains

/-- A judge before the calls that are looked at. Its ids are distinct, and
being hashes they are no names of every object. -/
structure Initial (ids : Nat → Text) (s0 : Requests) : Prop where
  injective : Function.Injective ids
  notCached : ∀ n, ids n ∉ s0.cache.map Prod.fst
  nodup : (s0.cache.map Prod.fst).Nodup
  hashes : ∀ n, ids n ∉ ServerConnection.objectPrototype
  cachedHashes : ∀ id ∈ s0.cache.map Prod.fst, id ∉ ServerConnection.objectPrototype
  handles : s0.handles = []
  validations : s0.validations = []
  removed : s0.removed = []

/-- Every request is accounted for. -/
structure Accounted (ids : Nat → Text) (s0 s : Requests) : Prop where
  /-- a call goes on when `performRequest` has settled -/
  goesOn : ∀ k h r, s.handles[k]? = some h → s.requests[h.request]? = some r →
    h.outcome = none → r.ended = true → (step ids s (.goOn k)).isSome
  /-- it has resolved then, with an error if `performRequest` rejected, and
  its request is not cached -/
  resolves : ∀ h ∈ s.handles, ∀ outcome, h.outcome = some outcome →
    ∃ result, outcome = .ok result ∧ variantPair result = h.pair ∧
      (∀ r ∈ s.requests[h.request]?, r.rejects = true → result.hasError = true) ∧
      h.id ∉ s.cache.map Prod.fst
  /-- a validation whose calls have settled has its variants -/
  variants : ∀ v x, s.validations[v]? = some x →
    (∀ h ∈ s.handles, h.validation = v → h.outcome.isSome) →
    (x.results.variants.map variantPair).Perm (pairs x.enable)
  /-- of the calls only those in flight are in the cache -/
  cache : s.cache =
    (s0.cache ++ inFlight s.handles).filter (fun p => !s.removed.contains p.1)
  cacheSum : s.cacheSum + s0.cache.length + idle s.removed = s0.cacheSum + s.cache.length

/-- With nothing in flight and nothing removed by others, the cache is as
before. -/
theorem Accounted.asBefore (h : Accounted ids s0 s) (hall : ∀ c ∈ s.handles, c.outcome.isSome)
    (hremoved : s.removed = []) : s.cache = s0.cache ∧ s.cacheSum = s0.cacheSum := by
  have hnone : inFlight s.handles = [] := by
    rw [inFlight, List.map_eq_nil_iff, List.filter_eq_nil_iff]
    intro c hc
    simpa [Option.isSome_iff_ne_none] using hall c hc
  have hcache : s.cache = s0.cache := by
    rw [h.cache, hnone, hremoved]
    simp
  have hsum := h.cacheSum
  rw [hcache, hremoved] at hsum
  exact ⟨hcache, by simp [idle] at hsum; omega⟩

/-! ## The cache -/

/-- The numbers: which ids are given away and what the cache holds. -/
structure Ledger (ids : Nat → Text) (s0 s : Requests) : Prop where
  inc : s.inc = s0.inc + s.handles.length
  given : s.handles.map (·.id) = (List.range' s0.inc s.handles.length).map ids
  /-- an id to come has not been removed -/
  removed : ∀ n, s.inc ≤ n → ids n ∉ s.removed
  cache : s.cache =
    (s0.cache ++ inFlight s.handles).filter (fun p => !s.removed.contains p.1)
  cacheSum : s.cacheSum + s0.cache.length + idle s.removed = s0.cacheSum + s.cache.length

theorem Ledger.initial (h0 : Initial ids s0) : Ledger ids s0 s0 where
  inc := by simp [h0.handles]
  given := by simp [h0.handles]
  removed := by simp [h0.removed]
  cache := by simp [h0.handles, h0.removed, inFlight]
  cacheSum := by simp [h0.removed, idle]

/-- Only the cache, the calls and the counter are in the ledger. -/
theorem Ledger.congr (hl : Ledger ids s0 s) (hinc : t.inc = s.inc) (hcache : t.cache = s.cache)
    (hsum : t.cacheSum = s.cacheSum) (hremoved : t.removed = s.removed)
    (hhandles : t.handles = s.handles) : Ledger ids s0 t := by
  obtain ⟨h1, h2, h3, h4, h5⟩ := hl
  constructor
  · rw [hinc, hhandles, h1]
  · rw [hhandles, h2]
  · rw [hinc, hremoved]
    exact h3
  · rw [hcache, hhandles, hremoved, h4]
  · rw [hsum, hremoved, hcache, h5]

theorem mem_inFlight_id {handles : List HandleRequest} {p : Text × Nat}
    (h : p ∈ inFlight handles) : p.1 ∈ handles.map (·.id) := by
  obtain ⟨c, hc, rfl⟩ := List.mem_map.mp h
  exact List.mem_map_of_mem (List.mem_of_mem_filter hc)

/-- The ids of the calls are those given away. -/
theorem Ledger.handle_id (hl : Ledger ids s0 s) {id : Text} (h : id ∈ s.handles.map (·.id)) :
    ∃ n < s.inc, id = ids n := by
  rw [hl.given] at h
  obtain ⟨n, hn, rfl⟩ := List.mem_map.mp h
  have hlt := (List.mem_range'_1.mp hn).2
  exact ⟨n, by rw [hl.inc]; exact hlt, rfl⟩

theorem Ledger.nodup_handles (hl : Ledger ids s0 s) (h0 : Initial ids s0) :
    (s.handles.map (·.id)).Nodup := by
  rw [hl.given]
  exact List.Nodup.map h0.injective List.nodup_range'

/-- A cached id is one of before or one of a call. -/
theorem Ledger.cached_id (hl : Ledger ids s0 s) {id : Text} (h : id ∈ s.cache.map Prod.fst) :
    id ∈ s0.cache.map Prod.fst ∨ ∃ n < s.inc, id = ids n := by
  rw [hl.cache] at h
  obtain ⟨p, hp, rfl⟩ := List.mem_map.mp h
  cases List.mem_append.mp (List.mem_of_mem_filter hp) with
  | inl hold => exact .inl (List.mem_map_of_mem hold)
  | inr hnew => exact .inr (hl.handle_id (mem_inFlight_id hnew))

theorem Ledger.cachedHashes (hl : Ledger ids s0 s) (h0 : Initial ids s0) {id : Text}
    (h : id ∈ s.cache.map Prod.fst) : id ∉ ServerConnection.objectPrototype := by
  cases hl.cached_id h with
  | inl hold => exact h0.cachedHashes id hold
  | inr hnew =>
      obtain ⟨n, -, rfl⟩ := hnew
      exact h0.hashes n

theorem inFlight_sublist (handles : List HandleRequest) :
    ((inFlight handles).map Prod.fst).Sublist (handles.map (·.id)) := by
  have hmap : (inFlight handles).map Prod.fst =
      (handles.filter (fun h => h.outcome.isNone)).map (·.id) := by
    simp [inFlight]
  rw [hmap]
  exact List.filter_sublist.map _

theorem Ledger.nodup_cache (hl : Ledger ids s0 s) (h0 : Initial ids s0) :
    (s.cache.map Prod.fst).Nodup := by
  have hall : ((s0.cache ++ inFlight s.handles).map Prod.fst).Nodup := by
    rw [List.map_append]
    refine List.Nodup.append h0.nodup
      ((inFlight_sublist s.handles).nodup (hl.nodup_handles h0)) ?_
    intro id hold hnew
    obtain ⟨n, -, rfl⟩ := hl.handle_id ((inFlight_sublist s.handles).subset hnew)
    exact h0.notCached n hold
  rw [hl.cache]
  exact (List.filter_sublist.map _).nodup hall

/-! ### Removing -/

theorem lookup_isSome_iff {l : List (Text × Nat)} {id : Text} :
    (l.lookup id).isSome = true ↔ id ∈ l.map Prod.fst := by
  induction l with
  | nil => simp
  | cons p l ih =>
      obtain ⟨id', i⟩ := p
      rw [List.lookup_cons, List.map_cons, List.mem_cons, ← ih]
      by_cases h : id = id'
      · simp [h]
      · simp [h, beq_eq_false_iff_ne.mpr h]

theorem cached_iff {id : Text} : s.cached id = true ↔
    id ∈ s.cache.map Prod.fst ∨ id ∈ ServerConnection.objectPrototype := by
  rw [cached, Bool.or_eq_true, lookup_isSome_iff, List.contains_iff_mem]

theorem filter_ne_of_notMem {l : List (Text × Nat)} {id : Text} (h : id ∉ l.map Prod.fst) :
    l.filter (fun p => p.1 ≠ id) = l := by
  rw [List.filter_eq_self]
  intro p hp
  have hne : p.1 ≠ id := by
    rintro rfl
    exact h (List.mem_map_of_mem hp)
  simpa using hne

/-- Cached or not, afterwards the id is not there. -/
theorem removeFromCache_cache (s : Requests) (id : Text) :
    (s.removeFromCache id).cache = s.cache.filter (fun p => p.1 ≠ id) := by
  unfold removeFromCache
  by_cases h : s.cached id = true
  · rw [if_pos h]
  · rw [if_neg h, filter_ne_of_notMem (fun hmem => h (cached_iff.mpr (.inl hmem)))]

theorem length_filter_ne {l : List (Text × Nat)} {id : Text} (hnodup : (l.map Prod.fst).Nodup)
    (h : id ∈ l.map Prod.fst) : (l.filter (fun p => p.1 ≠ id)).length + 1 = l.length := by
  induction l with
  | nil => simp at h
  | cons p l ih =>
      rw [List.map_cons, List.nodup_cons] at hnodup
      by_cases hp : p.1 = id
      · subst hp
        rw [List.filter_cons_of_neg (by simp), filter_ne_of_notMem hnodup.1, List.length_cons]
      · have hl : id ∈ l.map Prod.fst := by simpa [Ne.symm hp] using h
        rw [List.filter_cons_of_pos (by simpa using hp), List.length_cons, List.length_cons,
          ih hnodup.2 hl]

/-- `cache_sum` follows the number of entries, but for the names of every
object. -/
theorem removeFromCache_sum (id : Text) (hnodup : (s.cache.map Prod.fst).Nodup)
    (hhashes : id ∈ s.cache.map Prod.fst → id ∉ ServerConnection.objectPrototype) :
    (s.removeFromCache id).cacheSum +
        (if id ∈ ServerConnection.objectPrototype then 1 else 0) + s.cache.length =
      s.cacheSum + (s.removeFromCache id).cache.length := by
  rw [removeFromCache_cache]
  by_cases hmem : id ∈ s.cache.map Prod.fst
  · have hlen := length_filter_ne hnodup hmem
    rw [removeFromCache, if_pos (cached_iff.mpr (.inl hmem)), if_neg (hhashes hmem)]
    simp only
    omega
  · rw [filter_ne_of_notMem hmem, removeFromCache]
    by_cases hproto : id ∈ ServerConnection.objectPrototype
    · rw [if_pos (cached_iff.mpr (.inr hproto)), if_pos hproto]
      simp only
      omega
    · have hnot : ¬ s.cached id = true := fun h => (cached_iff.mp h).elim hmem hproto
      rw [if_neg hnot, if_neg hproto]
      omega

@[simp] theorem removeFromCache_frame (s : Requests) (id : Text) :
    (s.removeFromCache id).inc = s.inc ∧ (s.removeFromCache id).requests = s.requests ∧
      (s.removeFromCache id).handles = s.handles ∧
      (s.removeFromCache id).validations = s.validations ∧
      (s.removeFromCache id).removed = s.removed := by
  unfold removeFromCache
  by_cases h : s.cached id = true
  · rw [if_pos h]
    exact ⟨rfl, rfl, rfl, rfl, rfl⟩
  · rw [if_neg h]
    exact ⟨rfl, rfl, rfl, rfl, rfl⟩

@[simp] theorem removeByOther_frame (s : Requests) (id : Text) :
    (s.removeByOther id).inc = s.inc ∧ (s.removeByOther id).requests = s.requests ∧
      (s.removeByOther id).handles = s.handles ∧
      (s.removeByOther id).validations = s.validations := by
  obtain ⟨h1, h2, h3, h4, -⟩ := removeFromCache_frame s id
  unfold removeByOther
  by_cases h : s.cached id = true
  · rw [if_pos h]
    exact ⟨h1, h2, h3, h4⟩
  · rw [if_neg h]
    exact ⟨rfl, rfl, rfl, rfl⟩

theorem Ledger.removeByOther (hl : Ledger ids s0 s) (h0 : Initial ids s0) (id : Text) :
    Ledger ids s0 (s.removeByOther id) := by
  by_cases hcached : s.cached id = true
  · have hsum := removeFromCache_sum id (hl.nodup_cache h0) (hl.cachedHashes h0)
    have heq : s.removeByOther id = { s.removeFromCache id with removed := s.removed ++ [id] } := by
      rw [Requests.removeByOther, if_pos hcached]
    obtain ⟨hinc, -, hhandles, -⟩ := removeByOther_frame s id
    constructor
    · rw [hinc, hhandles, hl.inc]
    · rw [hhandles, hl.given]
    · intro n hn
      rw [hinc] at hn
      rw [heq]
      have hne : ids n ≠ id := by
        rintro rfl
        cases cached_iff.mp hcached with
        | inl hmem =>
            cases hl.cached_id hmem with
            | inl hold => exact h0.notCached n hold
            | inr hnew =>
                obtain ⟨m, hm, heq⟩ := hnew
                exact absurd (h0.injective heq) (by omega)
        | inr hproto => exact h0.hashes n hproto
      simpa [hne] using hl.removed n hn
    · rw [hhandles, heq]
      simp only [removeFromCache_cache]
      rw [hl.cache, List.filter_filter]
      refine List.filter_congr (fun p _ => ?_)
      simp [Bool.and_comm]
    · have hbefore := hl.cacheSum
      have hidle : idle (s.removed ++ [id]) =
          idle s.removed + if id ∈ ServerConnection.objectPrototype then 1 else 0 := by
        simp [idle, List.countP_append, List.countP_cons]
      rw [heq]
      simp only
      rw [hidle]
      by_cases hproto : id ∈ ServerConnection.objectPrototype
      · rw [if_pos hproto] at hsum ⊢
        omega
      · rw [if_neg hproto] at hsum ⊢
        omega
  · rwa [Requests.removeByOther, if_neg hcached]

/-! ### A call begins -/

@[simp] theorem handleRequest_frame (v : Nat) (s : Requests) (pair : ProtocolType × ProtocolType) :
    (s.handleRequest ids v pair).validations = s.validations ∧
      (s.handleRequest ids v pair).removed = s.removed ∧
      (s.handleRequest ids v pair).requests.length = s.requests.length + 1 := by
  refine ⟨rfl, rfl, ?_⟩
  exact List.length_append

theorem inFlight_append (l m : List HandleRequest) :
    inFlight (l ++ m) = inFlight l ++ inFlight m := by
  simp [inFlight]

theorem Ledger.handleRequest (hl : Ledger ids s0 s) (v : Nat)
    (pair : ProtocolType × ProtocolType) : Ledger ids s0 (s.handleRequest ids v pair) where
  inc := by
    show s.inc + 1 = _
    rw [hl.inc]
    simp [Requests.handleRequest, Nat.add_assoc]
  given := by
    have hlast : (List.range' s0.inc (s.handles.length + 1)).map ids =
        (List.range' s0.inc s.handles.length).map ids ++ [ids s.inc] := by
      rw [List.range'_1_concat, List.map_append, hl.inc, List.map_singleton]
    simp only [Requests.handleRequest, List.map_append, List.length_append, List.length_singleton]
    rw [hlast, hl.given]
    rfl
  removed := by
    intro n hn
    exact hl.removed n (Nat.le_of_succ_le hn)
  cache := by
    have hnew : ids s.inc ∉ s.removed := hl.removed s.inc (Nat.le_refl _)
    simp only [Requests.handleRequest, createRequest, addToCache]
    rw [inFlight_append, ← List.append_assoc, List.filter_append, ← hl.cache]
    simp [inFlight, hnew]
  cacheSum := by
    have hbefore := hl.cacheSum
    simp only [Requests.handleRequest, createRequest, addToCache, List.length_append,
      List.length_singleton]
    omega

theorem Ledger.foldl_handleRequest (v : Nat) (l : List (ProtocolType × ProtocolType))
    {s : Requests} (hl : Ledger ids s0 s) :
    Ledger ids s0 (l.foldl (Requests.handleRequest ids v) s) := by
  induction l generalizing s with
  | nil => exact hl
  | cons pair l ih => exact ih (hl.handleRequest v pair)

/-! ### A call goes on -/

theorem inFlight_set {l : List HandleRequest} {k : Nat} {h : HandleRequest} (h' : HandleRequest)
    (hnodup : (l.map (·.id)).Nodup) (hk : l[k]? = some h)
    (hsettled : h'.outcome.isNone = false) :
    inFlight (l.set k h') = (inFlight l).filter (fun p => p.1 ≠ h.id) := by
  induction l generalizing k with
  | nil => simp at hk
  | cons c l ih =>
      rw [List.map_cons, List.nodup_cons] at hnodup
      have hsplit : ∀ m : List HandleRequest, inFlight (c :: m) = inFlight [c] ++ inFlight m := by
        intro m
        rw [← inFlight_append, List.singleton_append]
      cases k with
      | zero =>
          cases hk
          have hrest : h.id ∉ (inFlight l).map Prod.fst :=
            fun hmem => hnodup.1 ((inFlight_sublist l).subset hmem)
          rw [hsplit, List.filter_append, filter_ne_of_notMem hrest]
          by_cases hnone : h.outcome.isNone = true <;> simp [inFlight, hsettled, hnone]
      | succ k =>
          have hk' : l[k]? = some h := hk
          have hmem : h.id ∈ l.map (·.id) := List.mem_map_of_mem (List.mem_of_getElem? hk')
          have hc : h.id ∉ (inFlight [c]).map Prod.fst := by
            intro hin
            have heq : h.id = c.id := by simpa using (inFlight_sublist [c]).subset hin
            exact hnodup.1 (heq ▸ hmem)
          rw [List.set_cons_succ, hsplit, hsplit l, List.filter_append, filter_ne_of_notMem hc,
            ih hnodup.2 hk']

theorem result_eq {r : JudgeRequest} {m : Monitor} (hm : r.monitor = some m)
    (protocolFrom protocolTo : ProtocolType) :
    ∃ result, r.result protocolFrom protocolTo = .ok result ∧
      variantPair result = (protocolFrom, protocolTo) := by
  unfold JudgeRequest.result
  rw [hm]
  exact ⟨_, rfl, rfl⟩

/-- The second part of a call whose request has a monitor. -/
theorem goOn_ok {k : Nat} {h : HandleRequest} {r : JudgeRequest} {m : Monitor}
    (hm : r.monitor = some m) :
    ∃ result, variantPair result = h.pair ∧
      s.goOn k h r =
        { (s.removeFromCache h.id).setRequest h.request .clear with
          handles := s.handles.set k { h with outcome := some (.ok result) }
          validations := s.validations.modify h.validation (·.push result) } := by
  obtain ⟨-, -, hhandles, hvalidations, -⟩ := removeFromCache_frame s h.id
  obtain ⟨result, hresult, hpair⟩ := result_eq hm h.protocolFrom h.protocolTo
  refine ⟨result, hpair, ?_⟩
  simp only [Requests.goOn, hresult, setRequest, hhandles, hvalidations]

theorem Ledger.goOn (hl : Ledger ids s0 s) (h0 : Initial ids s0) {k : Nat} {h : HandleRequest}
    {r : JudgeRequest} {m : Monitor} (hk : s.handles[k]? = some h) (hm : r.monitor = some m) :
    Ledger ids s0 (s.goOn k h r) := by
  obtain ⟨result, -, heq⟩ := goOn_ok (s := s) (k := k) (h := h) hm
  obtain ⟨hinc, -, -, -, hremoved⟩ := removeFromCache_frame s h.id
  obtain ⟨n, -, hn⟩ := hl.handle_id (List.mem_map_of_mem (f := (·.id)) (List.mem_of_getElem? hk))
  have hids : (s.handles.set k { h with outcome := some (.ok result) }).map (·.id) =
      s.handles.map (·.id) := by
    obtain ⟨hlt, hget⟩ := List.getElem?_eq_some_iff.mp hk
    have hself := @List.set_getElem_self _ (s.handles.map (·.id)) k (by simpa using hlt)
    rw [List.getElem_map, hget] at hself
    rw [List.map_set, hself]
  rw [heq]
  constructor
  · simp only [setRequest, hinc, hl.inc, List.length_set]
  · simp only [List.length_set]
    rw [hids, hl.given]
  · simp only [setRequest, hinc, hremoved]
    exact hl.removed
  · have hold : h.id ∉ s0.cache.map Prod.fst := hn ▸ h0.notCached n
    have hflight := inFlight_set { h with outcome := some (.ok result) }
      (hl.nodup_handles h0) hk rfl
    simp only [setRequest, removeFromCache_cache, hremoved]
    rw [hflight, hl.cache, List.filter_filter]
    conv_rhs => rw [← filter_ne_of_notMem hold, ← List.filter_append, List.filter_filter]
    refine List.filter_congr (fun p _ => ?_)
    rw [Bool.and_comm]
  · have hsum := removeFromCache_sum h.id (hl.nodup_cache h0) (hl.cachedHashes h0)
    rw [if_neg (hn ▸ h0.hashes n)] at hsum
    have hbefore := hl.cacheSum
    simp only [setRequest, hremoved]
    omega

/-! ## The variants -/

def callsOf (handles : List HandleRequest) (v : Nat) : List HandleRequest :=
  handles.filter (fun h => h.validation == v)

def returnedOf (handles : List HandleRequest) (v : Nat) : List HandleRequest :=
  handles.filter (fun h => h.validation == v && h.returned)

/-- The validations have their calls, and of these the variants. -/
structure Books (s : Requests) : Prop where
  request : ∀ h ∈ s.handles, h.request < s.requests.length
  validation : ∀ h ∈ s.handles, h.validation < s.validations.length
  calls : ∀ v (x : Validation), s.validations[v]? = some x →
    ((callsOf s.handles v).map HandleRequest.pair).Perm (pairs x.enable)
  variants : ∀ v (x : Validation), s.validations[v]? = some x →
    (x.results.variants.map variantPair).Perm ((returnedOf s.handles v).map HandleRequest.pair)

theorem Books.initial (h0 : Initial ids s0) : Books s0 := by
  constructor <;> simp [h0.handles, h0.validations]

theorem Books.congr (hb : Books s) (hrequests : t.requests.length = s.requests.length)
    (hhandles : t.handles = s.handles) (hvalidations : t.validations = s.validations) :
    Books t := by
  obtain ⟨h1, h2, h3, h4⟩ := hb
  constructor
  · rw [hrequests, hhandles]
    exact h1
  · rw [hvalidations, hhandles]
    exact h2
  · rw [hvalidations, hhandles]
    exact h3
  · rw [hvalidations, hhandles]
    exact h4

/-! ### A validation begins -/

/-- The calls of a validation are appended, none of them settled. -/
theorem foldl_handleRequest_spec (v : Nat) (l : List (ProtocolType × ProtocolType)) (s : Requests) :
    ∃ new, (l.foldl (handleRequest ids v) s).handles = s.handles ++ new ∧
      (l.foldl (handleRequest ids v) s).validations = s.validations ∧
      (l.foldl (handleRequest ids v) s).requests.length = s.requests.length + l.length ∧
      s.requests <+: (l.foldl (handleRequest ids v) s).requests ∧
      new.map HandleRequest.pair = l ∧
      ∀ h ∈ new, h.validation = v ∧ h.outcome = none ∧
        h.request < s.requests.length + l.length := by
  induction l generalizing s with
  | nil => exact ⟨[], (List.append_nil _).symm, rfl, rfl, List.prefix_rfl, rfl, by simp⟩
  | cons pair l ih =>
      obtain ⟨new, h1, h2, h3, h4, h5, h6⟩ := ih (s.handleRequest ids v pair)
      obtain ⟨hvalidations, -, hlength⟩ := @handleRequest_frame ids v s pair
      refine ⟨⟨ids s.inc, s.requests.length, v, pair.1, pair.2, none⟩ :: new,
        ?_, ?_, ?_, ?_, ?_, ?_⟩
      · rw [List.foldl_cons, h1]
        simp [handleRequest]
      · rw [List.foldl_cons, h2, hvalidations]
      · rw [List.foldl_cons, h3, hlength, List.length_cons]
        omega
      · exact (List.prefix_append _ _).trans h4
      · rw [List.map_cons, h5]
        rfl
      · intro h hh
        rw [List.length_cons]
        cases List.mem_cons.mp hh with
        | inl heq => exact heq ▸ ⟨rfl, rfl, by show s.requests.length < _; omega⟩
        | inr hnew =>
            obtain ⟨hv, hnone, hlt⟩ := h6 h hnew
            exact ⟨hv, hnone, by omega⟩

theorem callsOf_append_of_ne {old new : List HandleRequest} {v w : Nat} (hne : w ≠ v)
    (hnew : ∀ h ∈ new, h.validation = v) : callsOf (old ++ new) w = callsOf old w := by
  unfold callsOf
  rw [List.filter_append, List.append_right_eq_self, List.filter_eq_nil_iff]
  intro h hh
  simpa [hnew h hh] using Ne.symm hne

theorem returnedOf_append {old new : List HandleRequest} (w : Nat)
    (hnew : ∀ h ∈ new, h.outcome = none) : returnedOf (old ++ new) w = returnedOf old w := by
  unfold returnedOf
  rw [List.filter_append, List.append_right_eq_self, List.filter_eq_nil_iff]
  intro h hh
  simp [HandleRequest.returned, hnew h hh]

theorem getElem?_concat_cases {α : Type} {l : List α} {a x : α} {i : Nat}
    (h : (l ++ [a])[i]? = some x) : i = l.length ∧ x = a ∨ i ≠ l.length ∧ l[i]? = some x := by
  have hlt := (List.getElem?_eq_some_iff.mp h).1
  rw [List.length_append, List.length_singleton] at hlt
  by_cases hi : i = l.length
  · subst hi
    rw [List.getElem?_concat_length] at h
    exact .inl ⟨rfl, (Option.some.inj h).symm⟩
  · rw [List.getElem?_append_left (by omega)] at h
    exact .inr ⟨hi, h⟩

/-- No call belongs to a validation to come. -/
theorem Books.callsOf_length (hb : Books s) : callsOf s.handles s.validations.length = [] := by
  rw [callsOf, List.filter_eq_nil_iff]
  intro h hh
  have hlt := hb.validation h hh
  simp
  omega

theorem Books.returnedOf_length (hb : Books s) :
    returnedOf s.handles s.validations.length = [] := by
  rw [returnedOf, List.filter_eq_nil_iff]
  intro h hh
  have hlt := hb.validation h hh
  simp
  omega

theorem callsOf_append_self {old new : List HandleRequest} {v : Nat} (hold : callsOf old v = [])
    (hnew : ∀ h ∈ new, h.validation = v) : callsOf (old ++ new) v = new := by
  have happ : callsOf (old ++ new) v = callsOf old v ++ callsOf new v := List.filter_append _ _
  rw [happ, hold, List.nil_append, callsOf, List.filter_eq_self]
  intro h hh
  simpa using hnew h hh

theorem Books.validate (hb : Books s) (ip : Text) (port : Nat) (enable : Enable)
    (addr : Option Text) : Books (s.validate ids ip port enable addr) := by
  cases addr with
  | none => exact hb
  | some addr =>
      obtain ⟨new, h1, h2, h3, -, h5, h6⟩ := @foldl_handleRequest_spec ids
        s.validations.length (pairs enable)
        { s with validations := s.validations ++
          [{ enable := enable, host := ip, ip := addr, port := port }] }
      have hv : ∀ h ∈ new, h.validation = s.validations.length := fun h hh => (h6 h hh).1
      have hnone : ∀ h ∈ new, h.outcome = none := fun h hh => (h6 h hh).2.1
      unfold Requests.validate
      simp only
      constructor
      · intro h hh
        rw [h3]
        rw [h1] at hh
        cases List.mem_append.mp hh with
        | inl hin => exact Nat.lt_of_lt_of_le (hb.request h hin) (Nat.le_add_right _ _)
        | inr hin => exact (h6 h hin).2.2
      · intro h hh
        rw [h2, List.length_append, List.length_singleton]
        rw [h1] at hh
        cases List.mem_append.mp hh with
        | inl hin => exact Nat.lt_succ_of_lt (hb.validation h hin)
        | inr hin => exact hv h hin ▸ Nat.lt_succ_self _
      · intro v x hx
        rw [h2] at hx
        rw [h1]
        obtain ⟨rfl, rfl⟩ | ⟨hne, hold⟩ := getElem?_concat_cases hx
        · rw [callsOf_append_self hb.callsOf_length hv, h5]
        · rw [callsOf_append_of_ne hne hv]
          exact hb.calls v x hold
      · intro v x hx
        rw [h2] at hx
        rw [h1, returnedOf_append v hnone]
        obtain ⟨rfl, rfl⟩ | ⟨-, hold⟩ := getElem?_concat_cases hx
        · rw [hb.returnedOf_length]
          exact List.Perm.refl _
        · exact hb.variants v x hold

/-! ### A call goes on -/

theorem set_perm {α : Type} {l : List α} {k : Nat} {a : α} (h : l[k]? = some a) (b : α) :
    ∃ rest, l.Perm (a :: rest) ∧ (l.set k b).Perm (b :: rest) := by
  obtain ⟨hk, rfl⟩ := List.getElem?_eq_some_iff.mp h
  exact ⟨l.eraseIdx k, (List.getElem_cons_eraseIdx_perm hk).symm, List.set_perm_cons_eraseIdx hk b⟩

/-- A call that settles stays where it is booked. -/
theorem callsOf_set {l : List HandleRequest} {k : Nat} {h : HandleRequest} (h' : HandleRequest)
    (hk : l[k]? = some h) (hvalidation : h'.validation = h.validation) (hpair : h'.pair = h.pair)
    (v : Nat) : ((callsOf (l.set k h') v).map HandleRequest.pair).Perm
      ((callsOf l v).map HandleRequest.pair) := by
  obtain ⟨rest, hl, hset⟩ := set_perm hk h'
  refine ((hset.filter _).map _).trans (List.Perm.trans ?_ ((hl.filter _).map _).symm)
  by_cases hv : h.validation = v <;> simp [hvalidation, hv, hpair]

/-- A call that returns is one more, one that rejects is none. -/
theorem returnedOf_set {l : List HandleRequest} {k : Nat} {h h' : HandleRequest}
    (hk : l[k]? = some h) (hnone : h.returned = false) (v : Nat) :
    ((returnedOf (l.set k h') v).map HandleRequest.pair).Perm
      ((returnedOf l v).map HandleRequest.pair ++ (returnedOf [h'] v).map HandleRequest.pair) := by
  obtain ⟨rest, hl, hset⟩ := set_perm hk h'
  have hold : (returnedOf l v).Perm (returnedOf rest v) := by
    refine (hl.filter _).trans ?_
    rw [List.filter_cons_of_neg (by simp [hnone])]
    exact List.Perm.refl _
  have hnew : (returnedOf (l.set k h') v).Perm (returnedOf [h'] v ++ returnedOf rest v) := by
    refine (hset.filter _).trans ?_
    rw [← List.singleton_append, List.filter_append]
    exact List.Perm.refl _
  refine (hnew.map _).trans ?_
  rw [List.map_append]
  exact List.perm_append_comm.trans (List.Perm.append_right _ (hold.map _).symm)

/-- The call at `k` goes on with some outcome. -/
theorem Books.settle (hb : Books s) {k : Nat} {h : HandleRequest} (hk : s.handles[k]? = some h)
    (hnone : h.outcome = none) (result : JudgeResult) (hpair : variantPair result = h.pair)
    (hrequests : t.requests.length = s.requests.length)
    (hhandles : t.handles = s.handles.set k { h with outcome := some (.ok result) })
    (hvalidations : t.validations = s.validations.modify h.validation (·.push result)) :
    Books t := by
  have hmem : ∀ c ∈ t.handles, ∃ c' ∈ s.handles, c.request = c'.request ∧
      c.validation = c'.validation := by
    intro c hc
    rw [hhandles] at hc
    cases List.mem_or_eq_of_mem_set hc with
    | inl hin => exact ⟨c, hin, rfl, rfl⟩
    | inr heq => exact ⟨h, List.mem_of_getElem? hk, heq ▸ ⟨rfl, rfl⟩⟩
  -- a validation is as before, but for the variant it may have got
  have hvalidation : ∀ v x, t.validations[v]? = some x → ∃ x', s.validations[v]? = some x' ∧
      x.enable = x'.enable ∧ x.results.variants =
        x'.results.variants ++ if h.validation = v then [result] else [] := by
    intro v x hx
    rw [hvalidations, List.getElem?_modify] at hx
    obtain ⟨x', hx', rfl⟩ := Option.map_eq_some_iff.mp hx
    refine ⟨x', hx', ?_⟩
    by_cases hv : h.validation = v <;> simp [hv, Validation.push]
  constructor
  · intro c hc
    obtain ⟨c', hc', hrequest, -⟩ := hmem c hc
    rw [hrequest, hrequests]
    exact hb.request c' hc'
  · intro c hc
    obtain ⟨c', hc', -, hvalidation⟩ := hmem c hc
    rw [hvalidation, hvalidations, List.length_modify]
    exact hb.validation c' hc'
  · intro v x hx
    obtain ⟨x', hx', henable, -⟩ := hvalidation v x hx
    rw [hhandles, henable]
    exact (callsOf_set { h with outcome := some (.ok result) } hk rfl rfl v).trans
      (hb.calls v x' hx')
  · intro v x hx
    obtain ⟨x', hx', -, hvariants⟩ := hvalidation v x hx
    rw [hhandles, hvariants, List.map_append]
    refine (List.Perm.append (hb.variants v x' hx') ?_).trans
      (returnedOf_set hk (by simp [HandleRequest.returned, hnone]) v).symm
    by_cases hv : h.validation = v
    · simp [returnedOf, HandleRequest.returned, hv, hpair, HandleRequest.pair]
    · simp [returnedOf, hv]

/-! ## The outcomes -/

/-- A call that has settled has resolved, and its request has a monitor. -/
def Resolved (s : Requests) : Prop :=
  ∀ h ∈ s.handles, ∀ outcome, h.outcome = some outcome →
    ∃ result, outcome = .ok result ∧ variantPair result = h.pair ∧
      ∃ r, s.requests[h.request]? = some r ∧ r.monitor.isSome

theorem Resolved.initial (h0 : Initial ids s0) : Resolved s0 := by
  intro h hh
  simp [h0.handles] at hh

/-- Monitors are not taken away. -/
def KeepsMonitors (s t : Requests) : Prop :=
  ∀ (i : Nat) (r : JudgeRequest), s.requests[i]? = some r → r.monitor.isSome →
    ∃ r' : JudgeRequest, t.requests[i]? = some r' ∧ r'.monitor.isSome

theorem Resolved.congr (hr : Resolved s) (hhandles : t.handles = s.handles)
    (hrequests : KeepsMonitors s t) : Resolved t := by
  intro h hh outcome houtcome
  rw [hhandles] at hh
  obtain ⟨result, hok, hpair, r, hget, hmonitor⟩ := hr h hh outcome houtcome
  exact ⟨result, hok, hpair, hrequests h.request r hget hmonitor⟩

theorem keepsMonitors_setRequest {i : Nat} {f : JudgeRequest → JudgeRequest}
    (hf : ∀ r, s.requests[i]? = some r → r.monitor.isSome → (f r).monitor.isSome) :
    KeepsMonitors s (s.setRequest i f) := by
  intro j r hget hmonitor
  by_cases hij : i = j
  · subst hij
    exact ⟨f r, by simp [Requests.setRequest, hget], hf r hget hmonitor⟩
  · exact ⟨r, by simp [Requests.setRequest, hget, hij], hmonitor⟩

theorem monitor_emit (now : Nat) (e : MonitorEvent) (r : JudgeRequest) (h : r.monitor.isSome) :
    (r.emit now e).monitor.isSome := by
  unfold JudgeRequest.monitor JudgeRequest.emit at *
  cases hp : r.progress <;> simp_all

theorem monitor_onJudge (now : Nat) (r : JudgeRequest) (h : r.monitor.isSome) :
    (r.onJudge now).monitor.isSome := by
  unfold JudgeRequest.monitor JudgeRequest.onJudge at *
  cases hp : r.progress <;> simp_all

theorem monitor_clear (r : JudgeRequest) (h : r.monitor.isSome) : r.clear.monitor.isSome := by
  unfold JudgeRequest.monitor JudgeRequest.clear at *
  cases hactive : r.active <;> cases hp : r.progress <;> simp_all

theorem getElem?_of_prefix {α : Type} {l m : List α} (hpre : l <+: m) {i : Nat} {a : α}
    (h : l[i]? = some a) : m[i]? = some a := by
  obtain ⟨rest, rfl⟩ := hpre
  rw [List.getElem?_append_left (List.getElem?_eq_some_iff.mp h).1, h]

theorem monitor_of_ended {r : JudgeRequest} (hended : r.ended = true)
    (hrejects : r.rejects = false) : ∃ m, r.monitor = some m := by
  unfold JudgeRequest.ended JudgeRequest.rejects at *
  cases hp : r.progress with
  | preparing => simp [hp] at hended
  | rejected e => simp [hp] at hrejects
  | monitored m finished => exact ⟨m, by simp [JudgeRequest.monitor, hp]⟩

theorem monitor_of_rejects {r : JudgeRequest} (hrejects : r.rejects = true) : r.monitor = none := by
  unfold JudgeRequest.rejects at hrejects
  cases hp : r.progress with
  | preparing => simp [hp] at hrejects
  | rejected e => simp [JudgeRequest.monitor, hp]
  | monitored m finished => simp [hp] at hrejects

/-! ## Runs -/

/-- No call goes on from a `performRequest` that has rejected: when its
lookup fails, the client throws or gives no stream. -/
def PerformRequestResolved (s : Requests) : Action → Prop
  | .goOn k => ∀ h ∈ s.handles[k]?, ∀ r ∈ s.requests[h.request]?, r.rejects = false
  | _ => True

structure Inv (ids : Nat → Text) (s0 s : Requests) : Prop where
  ledger : Ledger ids s0 s
  books : Books s
  resolved : Resolved s

theorem Inv.initial (h0 : Initial ids s0) : Inv ids s0 s0 :=
  ⟨.initial h0, .initial h0, .initial h0⟩

/-- A step that touches one request only. -/
theorem Inv.setRequest (hi : Inv ids s0 s) {i : Nat} {f : JudgeRequest → JudgeRequest}
    (hf : ∀ r, s.requests[i]? = some r → r.monitor.isSome → (f r).monitor.isSome) :
    Inv ids s0 (s.setRequest i f) where
  ledger := hi.ledger.congr rfl rfl rfl rfl rfl
  books := hi.books.congr (List.length_modify _ _ _) rfl rfl
  resolved := hi.resolved.congr rfl (keepsMonitors_setRequest hf)

theorem Inv.listeners (hi : Inv ids s0 s) (listeners : List Text) :
    Inv ids s0 { s with listeners := listeners } where
  ledger := hi.ledger.congr rfl rfl rfl rfl rfl
  books := hi.books.congr rfl rfl rfl
  resolved := hi.resolved

theorem Inv.removeByOther (hi : Inv ids s0 s) (h0 : Initial ids s0) (id : Text) :
    Inv ids s0 (s.removeByOther id) := by
  obtain ⟨-, hrequests, hhandles, hvalidations⟩ := removeByOther_frame s id
  refine ⟨hi.ledger.removeByOther h0 id, hi.books.congr (by rw [hrequests]) hhandles hvalidations,
    hi.resolved.congr hhandles ?_⟩
  intro i r hget hmonitor
  exact ⟨r, by rw [hrequests, hget], hmonitor⟩

theorem Inv.clearCache (hi : Inv ids s0 s) (h0 : Initial ids s0) : Inv ids s0 s.clearCache := by
  have hfold : ∀ (l : List (Text × Nat)) (s : Requests), Inv ids s0 s →
      Inv ids s0 (l.foldl (fun s p => (s.setRequest p.2 .clear).removeByOther p.1) s) := by
    intro l
    induction l with
    | nil => exact fun s hi => hi
    | cons p l ih =>
        intro s hi
        exact ih _ ((hi.setRequest (fun r _ => monitor_clear r)).removeByOther h0 p.1)
  exact hfold s.cache s hi

theorem Inv.validate (hi : Inv ids s0 s) (ip : Text) (port : Nat) (enable : Enable)
    (addr : Option Text) : Inv ids s0 (s.validate ids ip port enable addr) := by
  refine ⟨?_, hi.books.validate ip port enable addr, ?_⟩
  · cases addr with
    | none => exact hi.ledger
    | some addr => exact Ledger.foldl_handleRequest _ _ (hi.ledger.congr rfl rfl rfl rfl rfl)
  · cases addr with
    | none => exact hi.resolved
    | some addr =>
        obtain ⟨new, h1, -, -, h4, -, h6⟩ := @foldl_handleRequest_spec ids
          s.validations.length (pairs enable)
          { s with validations := s.validations ++
            [{ enable := enable, host := ip, ip := addr, port := port }] }
        intro h hh outcome houtcome
        unfold Requests.validate at hh ⊢
        simp only at hh ⊢
        rw [h1] at hh
        cases List.mem_append.mp hh with
        | inl hin =>
            obtain ⟨result, hok, hpair, r, hget, hmonitor⟩ := hi.resolved h hin outcome houtcome
            exact ⟨result, hok, hpair, r, getElem?_of_prefix h4 hget, hmonitor⟩
        | inr hin =>
            rw [(h6 h hin).2.1] at houtcome
            cases houtcome

theorem Inv.goOn (hi : Inv ids s0 s) (h0 : Initial ids s0) {k : Nat} {h : HandleRequest}
    {r : JudgeRequest} (hk : s.handles[k]? = some h) (hget : s.requests[h.request]? = some r)
    (hnone : h.outcome = none) {m : Monitor} (hm : r.monitor = some m) :
    Inv ids s0 (s.goOn k h r) := by
  obtain ⟨result, hpair, heq⟩ := goOn_ok (s := s) (k := k) (h := h) hm
  obtain ⟨-, hrequests, -, -, -⟩ := removeFromCache_frame s h.id
  have hclear : KeepsMonitors s (s.goOn k h r) := by
    intro i r' hget' hmonitor
    rw [← hrequests] at hget'
    rw [heq]
    exact keepsMonitors_setRequest (fun r' _ => monitor_clear r') i r' hget' hmonitor
  refine ⟨hi.ledger.goOn h0 hk hm, ?_, ?_⟩
  · refine hi.books.settle hk hnone result hpair ?_ (by rw [heq]) (by rw [heq])
    rw [heq]
    simp [Requests.setRequest]
  · intro c hc outcome houtcome
    rw [heq] at hc
    cases List.mem_or_eq_of_mem_set hc with
    | inl hin =>
        obtain ⟨result', hok, hpair', r', hget', hmonitor⟩ := hi.resolved c hin outcome houtcome
        exact ⟨result', hok, hpair', hclear c.request r' hget' hmonitor⟩
    | inr hself =>
        subst hself
        cases houtcome
        exact ⟨result, rfl, hpair, hclear h.request r hget (by simp [hm])⟩

theorem Inv.step (hi : Inv ids s0 s) (h0 : Initial ids s0) (a : Action)
    (hok : PerformRequestResolved s a) (h : step ids s a = some t) : Inv ids s0 t := by
  cases a with
  | validate ip port enable addr =>
      cases h
      exact hi.validate ip port enable addr
  | prepared i outcome =>
      simp only [Requests.step] at h
      cases hr : s.requests[i]? with
      | none => simp [hr] at h
      | some r =>
          simp only [hr, Option.ite_none_right_eq_some, Option.some.injEq] at h
          obtain ⟨hpreparing, rfl⟩ := h
          refine hi.setRequest (fun r' hr' hmonitor => ?_)
          rw [hr] at hr'
          cases hr'
          simp [JudgeRequest.monitor, hpreparing] at hmonitor
  | emit i now e =>
      cases h
      exact hi.setRequest (fun r _ => monitor_emit now e r)
  | judge id now enabled =>
      simp only [Requests.step] at h
      by_cases hcached : s.cached id = true
      · rw [if_pos hcached] at h
        cases hlookup : s.cache.lookup id with
        | none =>
            rw [hlookup] at h
            cases h
            exact hi.listeners _
        | some i =>
            rw [hlookup] at h
            cases h
            cases enabled with
            | false => exact hi.listeners _
            | true => exact (hi.listeners _).setRequest (fun r _ => monitor_onJudge now r)
      · rw [if_neg hcached] at h
        cases h
        exact hi
  | detected i level =>
      cases h
      exact hi.setRequest (fun r _ hmonitor => hmonitor)
  | socketEnds id =>
      simp only [Requests.step, Option.ite_none_right_eq_some, Option.some.injEq] at h
      obtain ⟨-, rfl⟩ := h
      exact (hi.removeByOther h0 id).listeners _
  | pending =>
      cases h
      exact hi.clearCache h0
  | goOn k =>
      simp only [Requests.step] at h
      cases hk : s.handles[k]? with
      | none => simp [hk] at h
      | some c =>
          cases hr : s.requests[c.request]? with
          | none => simp [hk, hr] at h
          | some r =>
              simp only [hk, hr, Option.ite_none_right_eq_some, Option.some.injEq] at h
              obtain ⟨⟨hnone, hended⟩, rfl⟩ := h
              obtain ⟨m, hm⟩ := monitor_of_ended hended (hok c hk r hr)
              exact hi.goOn h0 hk hr (Option.isNone_iff_eq_none.mp hnone) hm

theorem Inv.accounted (h0 : Initial ids s0) (hi : Inv ids s0 s) : Accounted ids s0 s where
  goesOn := by
    intro k h r hk hr hnone hended
    simp [Requests.step, hk, hr, hnone, hended]
  resolves := by
    intro h hh outcome houtcome
    obtain ⟨result, hok, hpair, r, hget, hmonitor⟩ := hi.resolved h hh outcome houtcome
    refine ⟨result, hok, hpair, ?_, ?_⟩
    · intro r' hr' hrejects
      rw [hget] at hr'
      cases hr'
      rw [monitor_of_rejects hrejects] at hmonitor
      cases hmonitor
    · intro hmem
      rw [hi.ledger.cache] at hmem
      obtain ⟨p, hp, hid⟩ := List.mem_map.mp hmem
      obtain ⟨n, -, hn⟩ := hi.ledger.handle_id (List.mem_map_of_mem (f := (·.id)) hh)
      cases List.mem_append.mp (List.mem_of_mem_filter hp) with
      | inl hold => exact h0.notCached n (hn ▸ hid ▸ List.mem_map_of_mem hold)
      | inr hflight =>
          obtain ⟨c, hc, rfl⟩ := List.mem_map.mp hflight
          obtain ⟨hc, hopen⟩ := List.mem_filter.mp hc
          have hsame : c = h := List.inj_on_of_nodup_map (hi.ledger.nodup_handles h0) hc hh hid
          rw [hsame, houtcome] at hopen
          cases hopen
  variants := by
    intro v x hx hall
    have hreturned : returnedOf s.handles v = callsOf s.handles v := by
      refine List.filter_congr (fun h hh => ?_)
      by_cases hv : h.validation = v
      · obtain ⟨outcome, houtcome⟩ := Option.isSome_iff_exists.mp (hall h hh hv)
        obtain ⟨result, rfl, -⟩ := hi.resolved h hh outcome houtcome
        simp [hv, HandleRequest.returned, houtcome]
      · simp [hv]
    have hvariants := hi.books.variants v x hx
    rw [hreturned] at hvariants
    exact hvariants.trans (hi.books.calls v x hx)
  cache := hi.ledger.cache
  cacheSum := hi.ledger.cacheSum

/-- What goes on from a rejection rejects. -/
theorem goOn_rejects {k : Nat} {h : HandleRequest} {r : JudgeRequest} (hm : r.monitor = none) :
    s.goOn k h r =
      { s with handles := s.handles.set k { h with outcome := some (.error .typeError) } } := by
  simp [Requests.goOn, JudgeRequest.result, hm, Judge.JudgeRequest.deref, bind, Except.bind]

theorem resolved_of_accounted (a : Action) (h : step ids s a = some t)
    (hacc : Accounted ids s0 t) : PerformRequestResolved s a := by
  cases a with
  | goOn k =>
      intro c hc r hr
      simp only [Option.mem_def] at hc hr
      simp only [Requests.step, hc, hr, Option.ite_none_right_eq_some, Option.some.injEq] at h
      obtain ⟨-, rfl⟩ := h
      cases hrejects : r.rejects with
      | false => rfl
      | true =>
          rw [goOn_rejects (monitor_of_rejects hrejects)] at hacc
          have hk := (List.getElem?_eq_some_iff.mp hc).1
          obtain ⟨result, hok, -⟩ := hacc.resolves { c with outcome := some (.error .typeError) }
            (List.mem_iff_getElem?.mpr ⟨k, by simp [hk]⟩) _ rfl
          cases hok
  | validate | prepared | emit | judge | detected | socketEnds | pending => trivial

/-- **Every request is accounted for** all along a run exactly if no call
goes on from a `performRequest` that has rejected. -/
theorem accounted_iff (h0 : Initial ids s0) {as : List Action}
    (h : (machine ids).run s0 as = some t) :
    (machine ids).Always (Accounted ids s0) s0 as ↔
      (machine ids).Along PerformRequestResolved s0 as :=
  (machine ids).always_iff_along_of_inv
    (fun _ a _ (hi : Inv ids s0 _) _ hok h1 => hi.step h0 a hok h1) (fun _ hi => hi.accounted h0)
    (fun _ a _ _ _ h1 hacc => resolved_of_accounted a h1 hacc) (.initial h0)
    (machine ids).along_true h

instance (s : Requests) : DecidablePred (PerformRequestResolved s)
  | .goOn k =>
      inferInstanceAs (Decidable (∀ h ∈ s.handles[k]?, ∀ r ∈ s.requests[h.request]?,
        r.rejects = false))
  | .validate .. | .prepared .. | .emit .. | .judge .. | .detected .. | .socketEnds _ | .pending =>
      inferInstanceAs (Decidable True)

/-- Ids for the examples. -/
def letters (n : Nat) : Text := 'q' :: List.replicate n 'a'

theorem letters_initial : Initial letters {} where
  injective := by
    intro n m h
    simpa [letters] using h
  notCached := by simp
  nodup := List.nodup_nil
  hashes := by
    intro n h
    have hall : ∀ name ∈ ServerConnection.objectPrototype, name.head? ≠ some 'q' := by decide
    exact hall _ h rfl
  cachedHashes := by simp
  handles := rfl
  validations := rfl
  removed := rfl

/-- Both requests of a validation over http are answered. -/
theorem accounted_answered : ∃ t,
    (machine letters).run {} [.validate ['h'] 80 { https := false } (some ['h']),
      .prepared 0 (.ok 5), .prepared 1 (.ok 5), .emit 1 9 .close, .emit 0 9 .close, .goOn 1,
      .goOn 0] = some t ∧
    (machine letters).Always (Accounted letters {}) {}
      [.validate ['h'] 80 { https := false } (some ['h']),
        .prepared 0 (.ok 5), .prepared 1 (.ok 5), .emit 1 9 .close, .emit 0 9 .close, .goOn 1,
        .goOn 0] := by
  refine ⟨_, rfl, ?_⟩
  exact (accounted_iff letters_initial rfl).mpr (by decide)

/-- No address for the first of them: it rejects, is left in the cache and
the validation has no variant for it. -/
theorem not_accounted_lookupFailed : ∃ t,
    (machine letters).run {} [.validate ['h'] 80 { https := false } (some ['h']),
      .prepared 0 (.error .lookupFailed), .prepared 1 (.ok 5), .emit 1 9 .close, .goOn 1,
      .goOn 0] = some t ∧
    t.handles.all (fun h => h.outcome.isSome) ∧ t.cache = [(letters 0, 0)] ∧ t.cacheSum = 1 ∧
    t.validations.map (fun x => x.results.variants.map variantPair) = [[(.http, .https)]] ∧
    ¬ Accounted letters {} t := by
  refine ⟨_, rfl, rfl, rfl, rfl, rfl, ?_⟩
  intro hacc
  obtain ⟨result, hok, -⟩ := hacc.resolves _ List.mem_cons_self _ rfl
  cases hok

end Requests

end ProxyBroker.Judge
