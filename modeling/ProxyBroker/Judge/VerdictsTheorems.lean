/-
ProxyBroker.Judge.VerdictsTheorems — the level of a result is what the
visits under the id of its request make it, and -1 without one.

* `Filed` — in the cache and in the calls a request is under the id made
  for its number, and a call that has returned is out of the cache for
  good; kept by every step of the requests;
* `Books.step` — a variant is booked for one call, also in runs where
  calls reject;
* `Tracks` — a detector is behind the calls its visits are;
* `Judged` — both for all requests, and the results are those of the
  detectors; `verdict_run` reads the levels off it.

That a level is found once and for all rests on the ids: a visit comes to a
request under its id, and with the id out of the cache none does.
-/
import ProxyBroker.Judge.RequestsTheorems
import ProxyBroker.Judge.Verdicts

namespace ProxyBroker.Judge

open Lib Server Proxy

/-! ## Where a request is filed -/

namespace Requests

/-- The numbers of the requests and their ids. -/
structure Filed (ids : Nat → Text) (s : Requests) : Prop where
  inc : s.inc = s.requests.length
  cache : ∀ p ∈ s.cache, p.2 < s.inc ∧ p.1 = ids p.2
  handles : ∀ h ∈ s.handles, h.request < s.inc ∧ h.id = ids h.request ∧
    h.validation < s.validations.length
  /-- a call that has returned is not cached -/
  returned : ∀ h ∈ s.handles, ∀ result, h.outcome = some (.ok result) →
    h.id ∉ s.cache.map Prod.fst
  /-- a variant is what a call of its validation has returned -/
  variants : ∀ n v, s.validations[n]? = some v → ∀ result ∈ v.results.variants,
    ∃ h ∈ s.handles, h.validation = n ∧ h.outcome = some (.ok result) ∧
      h.pair = variantPair result

section

variable {ids : Nat → Text} {s t : Requests}

theorem Filed.empty : Filed ids {} where
  inc := rfl
  cache := by simp
  handles := by simp
  returned := by simp
  variants := by simp

/-- A cache that lost entries, and requests that changed. -/
theorem Filed.congr (h : Filed ids s) (hinc : t.inc = s.inc)
    (hrequests : t.requests.length = s.requests.length) (hcache : t.cache ⊆ s.cache)
    (hhandles : t.handles = s.handles) (hvalidations : t.validations = s.validations) :
    Filed ids t where
  inc := by rw [hinc, hrequests, h.inc]
  cache p hp := hinc ▸ h.cache p (hcache hp)
  handles := by
    rw [hinc, hhandles, hvalidations]
    exact h.handles
  returned := by
    rw [hhandles]
    intro c hc result hresult hmem
    exact h.returned c hc result hresult (List.map_subset _ hcache hmem)
  variants := by
    rw [hhandles, hvalidations]
    exact h.variants

theorem Filed.handleRequest (h : Filed ids s) (hids : Function.Injective ids) {n : Nat}
    (hn : n < s.validations.length) (pair : ProtocolType × ProtocolType) :
    Filed ids (s.handleRequest ids n pair) where
  inc := by
    show s.inc + 1 = _
    rw [(handleRequest_frame n s pair).2.2, h.inc]
  cache p hp := by
    show p.2 < s.inc + 1 ∧ _
    rcases List.mem_append.mp hp with hold | hnew
    · exact ⟨Nat.lt_succ_of_lt (h.cache p hold).1, (h.cache p hold).2⟩
    · rw [List.mem_singleton.mp hnew]
      exact ⟨h.inc ▸ Nat.lt_succ_self _, congrArg ids h.inc⟩
  handles c hc := by
    show c.request < s.inc + 1 ∧ _
    rcases List.mem_append.mp hc with hold | hnew
    · obtain ⟨hlt, hid, hvalidation⟩ := h.handles c hold
      exact ⟨Nat.lt_succ_of_lt hlt, hid, hvalidation⟩
    · rw [List.mem_singleton.mp hnew]
      exact ⟨h.inc ▸ Nat.lt_succ_self _, congrArg ids h.inc, hn⟩
  returned c hc result hresult hmem := by
    rcases List.mem_append.mp hc with hold | hnew
    · obtain ⟨hlt, hid, -⟩ := h.handles c hold
      obtain ⟨p, hp, hpid⟩ := List.mem_map.mp hmem
      rcases List.mem_append.mp hp with hcached | hnew
      · exact h.returned c hold result hresult (hpid ▸ List.mem_map_of_mem hcached)
      · rw [List.mem_singleton.mp hnew, hid] at hpid
        exact absurd (hids hpid) (Nat.ne_of_gt hlt)
    · rw [List.mem_singleton.mp hnew] at hresult
      cases hresult
  variants m v hv result hresult := by
    obtain ⟨c, hc, hfacts⟩ := h.variants m v hv result hresult
    exact ⟨c, List.mem_append_left _ hc, hfacts⟩

theorem Filed.addValidation (h : Filed ids s) (v : Validation) (hv : v.results.variants = []) :
    Filed ids { s with validations := s.validations ++ [v] } where
  inc := h.inc
  cache := h.cache
  handles c hc := by
    obtain ⟨hlt, hid, hvalidation⟩ := h.handles c hc
    refine ⟨hlt, hid, ?_⟩
    rw [List.length_append]
    exact Nat.lt_add_right _ hvalidation
  returned := h.returned
  variants n x hx result hresult := by
    obtain ⟨-, rfl⟩ | ⟨-, hold⟩ := getElem?_concat_cases hx
    · rw [hv] at hresult
      cases hresult
    · exact h.variants n x hold result hresult

/-- What a call that goes on leaves. -/
theorem goOn_cases (s : Requests) (k : Nat) (c : HandleRequest) (r : JudgeRequest) :
    (∃ e, s.goOn k c r =
        { s with handles := s.handles.set k { c with outcome := some (.error e) } }) ∨
      ∃ result, variantPair result = c.pair ∧ result.level = r.level ∧
        s.goOn k c r =
          { (s.removeFromCache c.id).setRequest c.request .clear with
            handles := s.handles.set k { c with outcome := some (.ok result) }
            validations := s.validations.modify c.validation (·.push result) } := by
  cases hm : r.monitor with
  | none => exact .inl ⟨_, goOn_rejects hm⟩
  | some m =>
      obtain ⟨-, -, hhandles, hvalidations, -⟩ := removeFromCache_frame s c.id
      obtain ⟨result, hresult, hpair, hlevel⟩ :
          ∃ result, r.result c.protocolFrom c.protocolTo = .ok result ∧
            variantPair result = c.pair ∧ result.level = r.level := by
        unfold JudgeRequest.result
        rw [hm]
        exact ⟨_, rfl, rfl, rfl⟩
      refine .inr ⟨result, hpair, hlevel, ?_⟩
      simp only [Requests.goOn, hresult, Requests.setRequest, hhandles, hvalidations]

theorem mem_set_of_ne {α : Type} {l : List α} {k : Nat} {a b c : α} (hk : l[k]? = some a)
    (hb : b ∈ l) (hne : b ≠ a) : b ∈ l.set k c := by
  obtain ⟨j, hj⟩ := List.mem_iff_getElem?.mp hb
  have hjk : k ≠ j := by
    rintro rfl
    rw [hk] at hj
    exact hne (Option.some.inj hj).symm
  exact List.mem_iff_getElem?.mpr ⟨j, by rw [List.getElem?_set_ne hjk, hj]⟩

/-- The calls, with one of them settled. -/
theorem Filed.settle (h : Filed ids s) {k : Nat} {c c' : HandleRequest}
    (hk : s.handles[k]? = some c) (hrequest : c'.request = c.request) (hid : c'.id = c.id)
    (hvalidation : c'.validation = c.validation) :
    ∀ d ∈ s.handles.set k c', d.request < s.inc ∧ d.id = ids d.request ∧
      d.validation < s.validations.length := by
  intro d hd
  rcases List.mem_or_eq_of_mem_set hd with hold | rfl
  · exact h.handles d hold
  · rw [hrequest, hid, hvalidation]
    exact h.handles c (List.mem_of_getElem? hk)

theorem Filed.goOn (h : Filed ids s) {k : Nat} {c : HandleRequest} (r : JudgeRequest)
    (hk : s.handles[k]? = some c) (hnone : c.outcome = none) : Filed ids (s.goOn k c r) := by
  have hkeeps : ∀ d ∈ s.handles, ∀ result c', d.outcome = some (.ok result) →
      d ∈ s.handles.set k c' := by
    intro d hd result c' hresult
    refine mem_set_of_ne hk hd ?_
    rintro rfl
    rw [hnone] at hresult
    cases hresult
  rcases goOn_cases s k c r with ⟨e, heq⟩ | ⟨result, hpair, -, heq⟩
  · rw [heq]
    refine ⟨h.inc, h.cache, h.settle hk rfl rfl rfl, ?_, ?_⟩
    · intro d hd result hresult
      rcases List.mem_or_eq_of_mem_set hd with hold | rfl
      · exact h.returned d hold result hresult
      · cases hresult
    · intro n v hv result hresult
      obtain ⟨d, hd, hvalidation, houtcome, hpair⟩ := h.variants n v hv result hresult
      exact ⟨d, hkeeps d hd result _ houtcome, hvalidation, houtcome, hpair⟩
  · obtain ⟨hinc, hrequests, -, -, -⟩ := removeFromCache_frame s c.id
    have hcache : (s.removeFromCache c.id).cache ⊆ s.cache := by
      rw [removeFromCache_cache]
      exact List.filter_subset_self _
    rw [heq]
    refine ⟨?_, ?_, ?_, ?_, ?_⟩
    · simp only [Requests.setRequest, List.length_modify]
      rw [hinc, hrequests, h.inc]
    · intro p hp
      simp only [Requests.setRequest, hinc]
      exact h.cache p (hcache hp)
    · simp only [Requests.setRequest, hinc, List.length_modify]
      exact h.settle hk rfl rfl rfl
    · intro d hd result' hresult' hmem
      rcases List.mem_or_eq_of_mem_set hd with hold | rfl
      · exact h.returned d hold result' hresult' (List.map_subset _ hcache hmem)
      · simp [Requests.setRequest, removeFromCache_cache] at hmem
    · intro n v hv result' hresult'
      simp only [List.getElem?_modify] at hv
      obtain ⟨v', hv', rfl⟩ := Option.map_eq_some_iff.mp hv
      have hcases : result' ∈ v'.results.variants ∨ c.validation = n ∧ result' = result := by
        by_cases hn : c.validation = n
        · simpa [hn, Validation.push] using hresult'
        · exact .inl (by simpa [hn] using hresult')
      rcases hcases with hold | ⟨hn, rfl⟩
      · obtain ⟨d, hd, hvalidation, houtcome, hpair⟩ := h.variants n v' hv' result' hold
        exact ⟨d, hkeeps d hd result' _ houtcome, hvalidation, houtcome, hpair⟩
      · refine ⟨{ c with outcome := some (.ok result') }, ?_, hn, rfl, hpair.symm⟩
        exact List.mem_set (List.getElem?_eq_some_iff.mp hk).1 _

/-! ## What leaves the calls alone -/

/-- The same request to its detector. -/
structure Alike (r r' : JudgeRequest) : Prop where
  level : r'.level = r.level
  monitor : r'.monitor.isSome = r.monitor.isSome
  preparing : r'.progress = .preparing → r.progress = .preparing

theorem Alike.refl (r : JudgeRequest) : Alike r r := ⟨rfl, rfl, id⟩

theorem Alike.trans {r r' r'' : JudgeRequest} (h : Alike r r') (h' : Alike r' r'') : Alike r r'' :=
  ⟨h'.level.trans h.level, h'.monitor.trans h.monitor, fun hp => h.preparing (h'.preparing hp)⟩

theorem alike_emit (now : Nat) (e : MonitorEvent) (r : JudgeRequest) : Alike r (r.emit now e) := by
  unfold JudgeRequest.emit
  split
  · rename_i h
    exact ⟨rfl, by simp [JudgeRequest.monitor, h], by simp⟩
  · exact .refl r

theorem alike_onJudge (now : Nat) (r : JudgeRequest) : Alike r (r.onJudge now) := by
  unfold JudgeRequest.onJudge
  split
  · rename_i h
    exact ⟨rfl, by simp [JudgeRequest.monitor, h], by simp⟩
  · exact .refl r

theorem alike_clear (r : JudgeRequest) : Alike r r.clear := by
  unfold JudgeRequest.clear
  split
  · exact .refl r
  · split
    · rename_i h
      exact ⟨rfl, by simp [JudgeRequest.monitor, h], by simp⟩
    · exact ⟨rfl, rfl, id⟩

/-- Only the cache, the listeners and the monitors differ. -/
structure Still (s t : Requests) : Prop where
  inc : t.inc = s.inc
  length : t.requests.length = s.requests.length
  cache : t.cache ⊆ s.cache
  handles : t.handles = s.handles
  validations : t.validations = s.validations
  requests : ∀ (i : Nat) (r' : JudgeRequest), t.requests[i]? = some r' →
    ∃ r, s.requests[i]? = some r ∧ Alike r r'

theorem Still.trans {u : Requests} (h : Still s t) (h' : Still t u) : Still s u where
  inc := h'.inc.trans h.inc
  length := h'.length.trans h.length
  cache := List.Subset.trans h'.cache h.cache
  handles := h'.handles.trans h.handles
  validations := h'.validations.trans h.validations
  requests i r'' hr'' := by
    obtain ⟨r', hr', halike'⟩ := h'.requests i r'' hr''
    obtain ⟨r, hr, halike⟩ := h.requests i r' hr'
    exact ⟨r, hr, halike.trans halike'⟩

/-- The requests are the same. -/
theorem still_of_requests (hinc : t.inc = s.inc) (hrequests : t.requests = s.requests)
    (hcache : t.cache ⊆ s.cache) (hhandles : t.handles = s.handles)
    (hvalidations : t.validations = s.validations) : Still s t where
  inc := hinc
  length := by rw [hrequests]
  cache := hcache
  handles := hhandles
  validations := hvalidations
  requests i r' hr' := ⟨r', by rw [← hrequests, hr'], .refl r'⟩

theorem still_setRequest (s : Requests) (i : Nat) {f : JudgeRequest → JudgeRequest}
    (hf : ∀ r, Alike r (f r)) : Still s (s.setRequest i f) where
  inc := rfl
  length := List.length_modify _ _ _
  cache := List.Subset.refl _
  handles := rfl
  validations := rfl
  requests j r' hr' := by
    simp only [Requests.setRequest, List.getElem?_modify] at hr'
    obtain ⟨r, hr, rfl⟩ := Option.map_eq_some_iff.mp hr'
    refine ⟨r, hr, ?_⟩
    split
    · exact hf r
    · exact .refl r

theorem still_removeFromCache (s : Requests) (id : Text) : Still s (s.removeFromCache id) := by
  obtain ⟨hinc, hrequests, hhandles, hvalidations, -⟩ := removeFromCache_frame s id
  refine still_of_requests hinc hrequests ?_ hhandles hvalidations
  rw [removeFromCache_cache]
  exact List.filter_subset_self _

theorem still_removeByOther (s : Requests) (id : Text) : Still s (s.removeByOther id) := by
  unfold removeByOther
  split
  · exact (still_removeFromCache s id).trans
      (still_of_requests rfl rfl (List.Subset.refl _) rfl rfl)
  · exact still_of_requests rfl rfl (List.Subset.refl _) rfl rfl

theorem still_clearCache (s : Requests) : Still s s.clearCache := by
  have hfold : ∀ (l : List (Text × Nat)) (s : Requests),
      Still s (l.foldl (fun s p => (s.setRequest p.2 .clear).removeByOther p.1) s) := by
    intro l
    induction l with
    | nil => exact fun s => still_of_requests rfl rfl (List.Subset.refl _) rfl rfl
    | cons p l ih =>
        intro s
        exact (still_setRequest s p.2 alike_clear).trans
          ((still_removeByOther _ p.1).trans (ih _))
  exact hfold s.cache s

theorem Still.filed (hs : Still s t) (h : Filed ids s) : Filed ids t :=
  h.congr hs.inc hs.length hs.cache hs.handles hs.validations

/-- `judge`, as far as its own part goes. -/
theorem still_judge {id : Text} {now : Nat} {enabled : Bool}
    (h : step ids s (.judge id now enabled) = some t) : Still s t := by
  have hlisteners : Still s { s with listeners := s.listeners ++ [id, id] } :=
    still_of_requests rfl rfl (List.Subset.refl _) rfl rfl
  simp only [Requests.step] at h
  split at h
  · split at h
    · cases h
      cases enabled with
      | false => exact hlisteners
      | true => exact hlisteners.trans (still_setRequest _ _ (alike_onJudge now))
    · cases h
      exact hlisteners
  · cases h
    exact still_of_requests rfl rfl (List.Subset.refl _) rfl rfl

/-- Only a validation gives ids away. -/
theorem shrinks {a : Action} (h : step ids s a = some t)
    (ha : ∀ ip port enable addr, a ≠ .validate ip port enable addr) :
    t.inc = s.inc ∧ t.cache ⊆ s.cache := by
  cases a with
  | validate ip port enable addr => exact absurd rfl (ha ip port enable addr)
  | prepared i outcome =>
      simp only [Requests.step] at h
      split at h
      · rw [Option.ite_none_right_eq_some] at h
        obtain ⟨-, h⟩ := h
        cases h
        exact ⟨rfl, List.Subset.refl _⟩
      · cases h
  | emit i now e =>
      cases h
      exact ⟨rfl, List.Subset.refl _⟩
  | judge id now enabled =>
      have hstill := still_judge h
      exact ⟨hstill.inc, hstill.cache⟩
  | detected i level =>
      cases h
      exact ⟨rfl, List.Subset.refl _⟩
  | socketEnds id =>
      simp only [Requests.step, Option.ite_none_right_eq_some, Option.some.injEq] at h
      obtain ⟨-, rfl⟩ := h
      have hstill := still_removeByOther s id
      exact ⟨hstill.inc, hstill.cache⟩
  | pending =>
      cases h
      have hstill := still_clearCache s
      exact ⟨hstill.inc, hstill.cache⟩
  | goOn k =>
      simp only [Requests.step] at h
      split at h
      · rename_i c hc
        split at h
        · rename_i r hr
          rw [Option.ite_none_right_eq_some] at h
          obtain ⟨-, h⟩ := h
          cases h
          have hstill := still_removeFromCache s c.id
          rcases goOn_cases s k c r with ⟨e, heq⟩ | ⟨result, -, -, heq⟩
          · rw [heq]
            exact ⟨rfl, List.Subset.refl _⟩
          · rw [heq]
            exact ⟨hstill.inc, hstill.cache⟩
        · cases h
      · cases h

/-! ## The books of any run -/

theorem Still.books (hs : Still s t) (hb : Books s) : Books t :=
  hb.congr hs.length hs.handles hs.validations

/-- A call that rejects stays booked, and gives no variant. -/
theorem Books.reject (hb : Books s) {k : Nat} {c : HandleRequest} (hk : s.handles[k]? = some c)
    (hnone : c.outcome = none) (e : JsException) :
    Books { s with handles := s.handles.set k { c with outcome := some (.error e) } } := by
  have hmem : ∀ d ∈ s.handles.set k { c with outcome := some (.error e) },
      ∃ d' ∈ s.handles, d.request = d'.request ∧ d.validation = d'.validation := by
    intro d hd
    rcases List.mem_or_eq_of_mem_set hd with hold | rfl
    · exact ⟨d, hold, rfl, rfl⟩
    · exact ⟨c, List.mem_of_getElem? hk, rfl, rfl⟩
  constructor
  · intro d hd
    obtain ⟨d', hd', hrequest, -⟩ := hmem d hd
    exact hrequest ▸ hb.request d' hd'
  · intro d hd
    obtain ⟨d', hd', -, hvalidation⟩ := hmem d hd
    exact hvalidation ▸ hb.validation d' hd'
  · intro v x hx
    exact (callsOf_set { c with outcome := some (.error e) } hk rfl rfl v).trans (hb.calls v x hx)
  · intro v x hx
    refine (hb.variants v x hx).trans
      ((returnedOf_set hk (by simp [HandleRequest.returned, hnone]) v).trans ?_).symm
    simp [returnedOf, HandleRequest.returned]

/-- **Step lemma**: every step keeps the books, also one that rejects. -/
theorem Books.step (hb : Books s) {a : Action} (h : step ids s a = some t) : Books t := by
  cases a with
  | validate ip port enable addr =>
      cases h
      exact hb.validate ip port enable addr
  | prepared i outcome =>
      simp only [Requests.step] at h
      split at h
      · rw [Option.ite_none_right_eq_some] at h
        obtain ⟨-, h⟩ := h
        cases h
        exact hb.congr (List.length_modify _ _ _) rfl rfl
      · cases h
  | emit i now e =>
      cases h
      exact (still_setRequest s i (alike_emit now e)).books hb
  | judge id now enabled => exact (still_judge h).books hb
  | detected i level =>
      cases h
      exact hb.congr (List.length_modify _ _ _) rfl rfl
  | socketEnds id =>
      simp only [Requests.step, Option.ite_none_right_eq_some, Option.some.injEq] at h
      obtain ⟨-, rfl⟩ := h
      exact ((still_removeByOther s id).books hb).congr rfl rfl rfl
  | pending =>
      cases h
      exact (still_clearCache s).books hb
  | goOn k =>
      simp only [Requests.step] at h
      split at h
      · rename_i c hc
        split at h
        · rename_i r hr
          rw [Option.ite_none_right_eq_some] at h
          obtain ⟨⟨hnone, -⟩, h⟩ := h
          cases h
          rw [Option.isNone_iff_eq_none] at hnone
          rcases goOn_cases s k c r with ⟨e, heq⟩ | ⟨result, hpair, -, heq⟩
          · rw [heq]
            exact hb.reject hc hnone e
          · rw [heq]
            refine hb.settle hc hnone result hpair ?_ rfl rfl
            simp [Requests.setRequest]
        · cases h
      · cases h

theorem books_run {as : List Action} (hb : Books s) (h : (machine ids).run s as = some t) :
    Books t :=
  (machine ids).run_invariant (fun _ _ _ hb hstep => hb.step hstep) hb h

theorem books_empty : Books {} := by
  constructor <;> simp

/-- The calls of a validation are for different pairs. -/
theorem Books.pairs_nodup (hb : Books s) {n : Nat} {v : Validation}
    (hv : s.validations[n]? = some v) :
    ((callsOf s.handles n).map HandleRequest.pair).Nodup := by
  have hpairs : (pairs v.enable).Nodup := by
    obtain ⟨http, https⟩ := v.enable
    cases http <;> cases https <;> decide
  exact (hb.calls n v hv).nodup_iff.mpr hpairs

/-- So its variants are, and a call is known by its pair. -/
theorem Books.variants_nodup (hb : Books s) {n : Nat} {v : Validation}
    (hv : s.validations[n]? = some v) : (v.results.variants.map variantPair).Nodup := by
  refine (hb.variants n v hv).nodup_iff.mpr ((hb.pairs_nodup hv).sublist (List.Sublist.map _ ?_))
  have hreturned : returnedOf s.handles n =
      (callsOf s.handles n).filter HandleRequest.returned := by
    rw [callsOf, List.filter_filter, returnedOf]
    exact List.filter_congr (fun h _ => Bool.and_comm _ _)
  rw [hreturned]
  exact List.filter_sublist

theorem Books.eq_of_pair (hb : Books s) {n : Nat} {v : Validation}
    (hv : s.validations[n]? = some v) {c d : HandleRequest} (hc : c ∈ s.handles)
    (hd : d ∈ s.handles) (hcn : c.validation = n) (hdn : d.validation = n)
    (hpair : c.pair = d.pair) : c = d :=
  List.inj_on_of_nodup_map (hb.pairs_nodup hv) (List.mem_filter.mpr ⟨hc, by simp [hcn]⟩)
    (List.mem_filter.mpr ⟨hd, by simp [hdn]⟩) hpair

end

end Requests

/-! ## The calls of a detector -/

namespace LevelDetection

variable (toLocaleLowerCase : Text → Text)

theorem detectHeaders_addresses (headers : List Header) (d : LevelDetection) :
    (detectHeaders toLocaleLowerCase headers d).2.proxyIp = d.proxyIp ∧
      (detectHeaders toLocaleLowerCase headers d).2.localIp = d.localIp := by
  induction headers generalizing d with
  | nil => exact ⟨rfl, rfl⟩
  | cons header headers ih =>
      rw [detectHeaders_cons]
      exact ih (d.detectHeader toLocaleLowerCase header)

/-- The addresses stay. -/
theorem runCalls_addresses (dns : DomainUtils) (proxyIp localIp : Text) (calls : List Call) :
    (runCalls toLocaleLowerCase dns proxyIp localIp calls).proxyIp = proxyIp ∧
      (runCalls toLocaleLowerCase dns proxyIp localIp calls).localIp = localIp := by
  induction calls using List.reverseRecOn with
  | nil => exact ⟨rfl, rfl⟩
  | append_singleton calls c ih =>
      rw [runCalls_concat]
      cases c with
      | addRecvHeader headers => exact ih
      | detect =>
          obtain ⟨hproxy, hlocal⟩ := detectHeaders_addresses toLocaleLowerCase _
            (runCalls toLocaleLowerCase dns proxyIp localIp calls)
          exact ⟨hproxy.trans ih.1, hlocal.trans ih.2⟩

end LevelDetection

namespace Verdicts

open Requests LevelDetection

/-! ## What is said of a request -/

/-- A visit to a request that was answered 200. -/
def Visit.counts (reqId : Text) (visit : Visit) : Bool :=
  visit.statusCode == some 200 && visit.path.bind ServerConnection.judgeId == some reqId

def visitsOf (s : Verdicts) (reqId : Text) : List Visit := s.visits.filter (·.counts reqId)

/-- What the visits are for the detector. -/
def callsOf (visits : List Visit) : List Call :=
  visits.flatMap (fun visit => [.addRecvHeader visit.headers, .detect])

/-- The level the visits make. -/
def verdict (toLocaleLowerCase : Text → Text) (locals proxies : List Text) (visits : List Visit) :
    Int :=
  if visits = [] then -1
  else levelOf toLocaleLowerCase locals proxies (visits.flatMap (fun v => received v.headers))

section

variable {toLocaleLowerCase : Text → Text} {dns : DomainUtils} {proxyIp localIp : Text}

theorem runCalls_visit (visits : List Visit) (visit : Visit) :
    runCalls toLocaleLowerCase dns proxyIp localIp (callsOf (visits ++ [visit])) =
      detect toLocaleLowerCase visit.headers
        (runCalls toLocaleLowerCase dns proxyIp localIp (callsOf visits)) := by
  have hcalls : callsOf (visits ++ [visit]) =
      callsOf visits ++ [.addRecvHeader visit.headers] ++ [.detect] := by
    simp [callsOf]
  rw [hcalls, runCalls_concat, runCalls_concat]
  rfl

theorem receivedBy_callsOf (visits : List Visit) :
    receivedBy (callsOf visits) = visits.flatMap (fun v => received v.headers) := by
  induction visits with
  | nil => rfl
  | cons visit visits ih =>
      have hsplit : callsOf (visit :: visits) =
          [.addRecvHeader visit.headers, .detect] ++ callsOf visits := rfl
      rw [hsplit, receivedBy, List.flatMap_append, ← receivedBy, ← receivedBy, ih,
        List.flatMap_cons]
      simp [receivedBy]

theorem level_callsOf (visits : List Visit) :
    (runCalls toLocaleLowerCase dns proxyIp localIp (callsOf visits)).level =
      verdict toLocaleLowerCase (createAddrRegex dns localIp) (createAddrRegex dns proxyIp)
        visits := by
  cases visits using List.reverseRecOn with
  | nil => rfl
  | append_singleton visits visit =>
      have hcounts := (counts_run toLocaleLowerCase dns proxyIp localIp
        (callsOf visits)).addRecvHeader visit.headers
      have hlevel := hcounts.detect.2
      rw [runCalls_visit, detect, hlevel, verdict, if_neg (by simp), receivedBy_callsOf,
        List.flatMap_append, List.flatMap_singleton]

/-- A level above 0 is one that a visit has made. -/
theorem verdict_pos_iff {locals proxies : List Text} {visits : List Visit} :
    0 < verdict toLocaleLowerCase locals proxies visits ↔ visits ≠ [] := by
  unfold verdict levelOf
  split
  · rename_i h
    exact iff_of_false (by decide) (by simpa using h)
  · rename_i h
    refine iff_of_true ?_ h
    split
    · decide
    · split <;> decide

/-- A detector follows its request and the visits that counted. -/
structure Tracks (toLocaleLowerCase : Text → Text) (dns : DomainUtils) (r : Requests.JudgeRequest)
    (d : LevelDetection) (visits : List Visit) : Prop where
  level : r.level = d.level
  unmonitored : r.monitor = none → visits = [] ∧ d.level = -1
  preparing : r.progress = .preparing → d = { proxyIp := d.proxyIp, localIp := d.localIp }
  monitored : r.monitor.isSome = true →
    d = runCalls toLocaleLowerCase dns d.proxyIp d.localIp (callsOf visits)

variable {r r' : Requests.JudgeRequest} {d : LevelDetection} {visits : List Visit}

theorem Tracks.verdict (h : Tracks toLocaleLowerCase dns r d visits) :
    d.level = verdict toLocaleLowerCase (createAddrRegex dns d.localIp)
      (createAddrRegex dns d.proxyIp) visits := by
  cases hm : r.monitor with
  | none =>
      obtain ⟨rfl, hlevel⟩ := h.unmonitored hm
      rw [hlevel]
      rfl
  | some m =>
      have hd := h.monitored (by rw [hm]; rfl)
      exact (congrArg LevelDetection.level hd).trans (level_callsOf visits)

theorem Tracks.alike (h : Tracks toLocaleLowerCase dns r d visits) (hr : Alike r r') :
    Tracks toLocaleLowerCase dns r' d visits where
  level := hr.level.trans h.level
  unmonitored hm := by
    refine h.unmonitored (Option.not_isSome_iff_eq_none.mp ?_)
    rw [← hr.monitor, hm]
    exact Bool.false_ne_true
  preparing hp := h.preparing (hr.preparing hp)
  monitored hm := h.monitored (hr.monitor ▸ hm)

/-- A request that is new. -/
theorem tracks_new (proxyIp localIp : Text) :
    Tracks toLocaleLowerCase dns {} { proxyIp := proxyIp, localIp := localIp } [] where
  level := rfl
  unmonitored _ := ⟨rfl, rfl⟩
  preparing _ := rfl
  monitored hm := by cases hm

theorem Tracks.prepared (h : Tracks toLocaleLowerCase dns r d visits)
    (hpreparing : r.progress = .preparing) (outcome : Except Rejection Nat) :
    Tracks toLocaleLowerCase dns (r.prepared outcome) (prepareDetector dns outcome d) visits := by
  obtain ⟨rfl, hlevel⟩ := h.unmonitored (by simp [Requests.JudgeRequest.monitor, hpreparing])
  have hbare := h.preparing hpreparing
  have hsame : (prepareDetector dns outcome d).level = d.level := by
    unfold prepareDetector
    split <;> rfl
  cases outcome with
  | error e =>
      refine ⟨h.level.trans hsame.symm, fun _ => ⟨rfl, hsame.trans hlevel⟩, ?_, ?_⟩
      · intro hp
        cases hp
      · intro hm
        cases hm
  | ok now =>
      refine ⟨h.level.trans hsame.symm, ?_, ?_, ?_⟩
      · intro hm
        cases hm
      · intro hp
        cases hp
      · intro _
        show d.prepare dns = _
        rw [hbare]
        rfl

/-- A visit that counts. -/
theorem Tracks.visit (h : Tracks toLocaleLowerCase dns r d visits)
    (hmonitor : r.monitor.isSome = true) (visit : Visit) (now : Nat) :
    Tracks toLocaleLowerCase dns
      { r.onJudge now with level := (detect toLocaleLowerCase visit.headers d).level }
      (detect toLocaleLowerCase visit.headers d) (visits ++ [visit]) := by
  have hd : detect toLocaleLowerCase visit.headers d =
      runCalls toLocaleLowerCase dns d.proxyIp d.localIp (callsOf (visits ++ [visit])) := by
    rw [runCalls_visit, ← h.monitored hmonitor]
  obtain ⟨hproxy, hlocal⟩ := runCalls_addresses toLocaleLowerCase dns d.proxyIp d.localIp
    (callsOf (visits ++ [visit]))
  have hstill : (r.onJudge now).monitor.isSome = true := monitor_onJudge now r hmonitor
  refine ⟨rfl, ?_, ?_, ?_⟩
  · intro hm
    have hnone : (r.onJudge now).monitor = none := hm
    rw [hnone] at hstill
    cases hstill
  · intro hp
    have hpreparing : (r.onJudge now).progress = .preparing := hp
    simp [Requests.JudgeRequest.monitor, hpreparing] at hstill
  · intro _
    rw [hd, hproxy, hlocal]

end

/-! ## All requests -/

theorem detect_addresses (toLocaleLowerCase : Text → Text) (headers : List (Text × Text))
    (d : LevelDetection) : (detect toLocaleLowerCase headers d).proxyIp = d.proxyIp ∧
      (detect toLocaleLowerCase headers d).localIp = d.localIp :=
  detectHeaders_addresses toLocaleLowerCase _ (d.addRecvHeader headers)

theorem prepareDetector_frame (dns : DomainUtils) (outcome : Except Rejection Nat)
    (d : LevelDetection) : (prepareDetector dns outcome d).proxyIp = d.proxyIp ∧
      (prepareDetector dns outcome d).localIp = d.localIp ∧
      (prepareDetector dns outcome d).level = d.level := by
  unfold prepareDetector
  split <;> exact ⟨rfl, rfl, rfl⟩

/-- The detector of a call is for the proxy of its validation, and what it
has returned is of the level found there. -/
def Answers (localIp : Text) (s : Verdicts) (h : HandleRequest) : Prop :=
  ∃ v d, s.requests.validations[h.validation]? = some v ∧ s.detectors[h.request]? = some d ∧
    d.proxyIp = proxyIp h.protocolFrom v.ip v.port ∧ d.localIp = localIp ∧
    ∀ result, h.outcome = some (.ok result) → result.level = d.level

structure Judged (ids : Nat → Text) (toLocaleLowerCase : Text → Text) (dns : Nat → DomainUtils)
    (localIp : Text) (s : Verdicts) : Prop where
  filed : Filed ids s.requests
  length : s.detectors.length = s.requests.requests.length
  /-- who was visited is no request to come -/
  known : ∀ visit ∈ s.visits, ∀ reqId, visit.counts reqId = true →
    ∃ i < s.requests.inc, reqId = ids i
  tracks : ∀ (i : Nat) (r : Requests.JudgeRequest) (d : LevelDetection),
    s.requests.requests[i]? = some r → s.detectors[i]? = some d →
    Tracks toLocaleLowerCase (dns i) r d (s.visitsOf (ids i))
  answers : ∀ h ∈ s.requests.handles, Answers localIp s h

section

variable {ids : Nat → Text} {toLocaleLowerCase : Text → Text} {dns : Nat → DomainUtils}
  {localIp : Text} {s t : Verdicts}

theorem Judged.empty : Judged ids toLocaleLowerCase dns localIp {} where
  filed := .empty
  length := rfl
  known := by simp
  tracks := by simp
  answers := by simp

theorem pass_eq_some {a : Requests.Action} (h : s.pass ids a = some t) :
    ∃ requests, Requests.step ids s.requests a = some requests ∧
      t = { s with requests := requests } := by
  obtain ⟨requests, hrequests, rfl⟩ := Option.map_eq_some_iff.mp h
  exact ⟨requests, hrequests, rfl⟩

/-- What leaves the calls alone. -/
theorem Judged.still (h : Judged ids toLocaleLowerCase dns localIp s) {requests : Requests}
    (hs : Still s.requests requests) :
    Judged ids toLocaleLowerCase dns localIp { s with requests := requests } where
  filed := hs.filed h.filed
  length := h.length.trans hs.length.symm
  known := by
    rw [hs.inc]
    exact h.known
  tracks i r' d hr' hd := by
    obtain ⟨r, hr, halike⟩ := hs.requests i r' hr'
    exact (h.tracks i r d hr hd).alike halike
  answers c hc := by
    obtain ⟨v, d, hv, hd, hfacts⟩ := h.answers c (hs.handles ▸ hc)
    exact ⟨v, d, by rw [hs.validations, hv], hd, hfacts⟩

theorem visitsOf_append (s : Verdicts) (visit : Visit) (reqId : Text) :
    ({ s with visits := s.visits ++ [visit] } : Verdicts).visitsOf reqId =
      s.visitsOf reqId ++ if visit.counts reqId then [visit] else [] := by
  rw [visitsOf, List.filter_append, List.filter_singleton, cond_eq_ite]
  rfl

/-- A visit that comes to no request. -/
theorem Judged.unvisited (h : Judged ids toLocaleLowerCase dns localIp s) (visit : Visit)
    (hcounts : ∀ reqId, visit.counts reqId = false) :
    Judged ids toLocaleLowerCase dns localIp { s with visits := s.visits ++ [visit] } where
  filed := h.filed
  length := h.length
  known visit' hvisit' reqId hcounts' := by
    rcases List.mem_append.mp hvisit' with hold | hnew
    · exact h.known visit' hold reqId hcounts'
    · rw [List.mem_singleton.mp hnew, hcounts] at hcounts'
      cases hcounts'
  tracks i r d hr hd := by
    rw [visitsOf_append, hcounts, if_neg Bool.false_ne_true, List.append_nil]
    exact h.tracks i r d hr hd
  answers := h.answers

/-! ### A visit -/

theorem visited_eq_some {reqId : Text} {enabled : Bool} {i : Nat}
    (h : s.visited reqId enabled = some i) :
    enabled = true ∧ s.requests.cache.lookup reqId = some i ∧
      ∃ r, s.requests.requests[i]? = some r ∧ r.monitor.isSome = true := by
  simp only [visited, Option.bind_eq_bind, Option.bind_eq_some_iff,
    Option.guard_eq_some', Option.pure_def] at h
  obtain ⟨-, henabled, j, hlookup, r, hr, m, hm, hij⟩ := h
  cases hij
  exact ⟨henabled, hlookup, r, hr, by rw [hm]; rfl⟩

theorem mem_of_lookup {cache : List (Text × Nat)} {reqId : Text} {i : Nat}
    (h : cache.lookup reqId = some i) : (reqId, i) ∈ cache := by
  obtain ⟨before, after, rfl, -⟩ := List.lookup_eq_some_iff.mp h
  exact List.mem_append_right _ List.mem_cons_self

/-- The judge behind a visit that comes to the request `i`. -/
def afterVisit (toLocaleLowerCase : Text → Text) (s : Verdicts) (i : Nat) (reqId : Text)
    (visit : Visit) (now : Nat) (level : Int) : Verdicts where
  requests := ({ s.requests with
    listeners := s.requests.listeners ++ [reqId, reqId] }).setRequest i
      (fun r => { r.onJudge now with level := level })
  detectors := s.detectors.modify i (detect toLocaleLowerCase visit.headers)
  visits := s.visits ++ [visit]

theorem judge_visited {path : Option Text} {headers : List (Text × Text)} {now : Nat}
    {enabled : Bool} {reqId : Text} {i : Nat} {d : LevelDetection}
    (hid : path.bind ServerConnection.judgeId = some reqId)
    (hvisited : s.visited reqId enabled = some i) (hd : s.detectors[i]? = some d) :
    s.judge ids toLocaleLowerCase path headers now enabled =
      some (s.afterVisit toLocaleLowerCase i reqId ⟨path, headers, some 200⟩ now
        (detect toLocaleLowerCase headers d).level) := by
  obtain ⟨rfl, hlookup, -⟩ := visited_eq_some hvisited
  have hcached : s.requests.cached reqId = true := by simp [cached, hlookup]
  obtain ⟨p, rfl, hp⟩ := Option.bind_eq_some_iff.mp hid
  have hstatus : s.statusCode (some p) true = some 200 := by
    simp [statusCode, hp, hcached, hvisited]
  simp only [judge, hid, hvisited, note, hstatus, pass, Requests.step, hcached, hlookup,
    setDetector, if_true, Option.map_some, Option.bind_eq_bind, Option.bind_some,
    List.getElem?_modify_eq, hd, afterVisit, Requests.setRequest, List.modify_modify_eq]
  rfl

theorem Judged.visit (h : Judged ids toLocaleLowerCase dns localIp s)
    (hids : Function.Injective ids) {reqId : Text} {i : Nat} {r : Requests.JudgeRequest}
    {d : LevelDetection} (hcached : (reqId, i) ∈ s.requests.cache)
    (hr : s.requests.requests[i]? = some r) (hmonitor : r.monitor.isSome = true)
    (hd : s.detectors[i]? = some d) (visit : Visit) (now : Nat)
    (hcounts : ∀ id, visit.counts id = true ↔ id = reqId) :
    Judged ids toLocaleLowerCase dns localIp
      (s.afterVisit toLocaleLowerCase i reqId visit now
        (detect toLocaleLowerCase visit.headers d).level) := by
  obtain ⟨hlt, rfl⟩ : i < s.requests.inc ∧ reqId = ids i := h.filed.cache _ hcached
  refine ⟨?_, ?_, ?_, ?_, ?_⟩
  · exact h.filed.congr rfl (List.length_modify _ _ _) (List.Subset.refl _) rfl rfl
  · simp only [afterVisit, Requests.setRequest, List.length_modify]
    exact h.length
  · intro visit' hvisit' id hid
    rcases List.mem_append.mp hvisit' with hold | hnew
    · exact h.known visit' hold id hid
    · rw [List.mem_singleton.mp hnew] at hid
      exact ⟨i, hlt, (hcounts id).mp hid⟩
  · intro j r' d' hr' hd'
    have hvisits := visitsOf_append s visit (ids j)
    simp only [afterVisit, Requests.setRequest, List.getElem?_modify] at hr' hd'
    obtain ⟨r₀, hr₀, rfl⟩ := Option.map_eq_some_iff.mp hr'
    obtain ⟨d₀, hd₀, rfl⟩ := Option.map_eq_some_iff.mp hd'
    by_cases hij : i = j
    · subst hij
      rw [hr] at hr₀
      rw [hd] at hd₀
      cases hr₀
      cases hd₀
      rw [if_pos ((hcounts _).mpr rfl)] at hvisits
      simp only [afterVisit, if_true]
      have htracks := (h.tracks i r d hr hd).visit hmonitor visit now
      rw [← hvisits] at htracks
      exact htracks
    · have hother : visit.counts (ids j) = false := by
        rw [Bool.eq_false_iff]
        exact fun hc => hij (hids ((hcounts _).mp hc)).symm
      rw [hother, if_neg Bool.false_ne_true, List.append_nil] at hvisits
      simp only [if_neg hij]
      have htracks := h.tracks j r₀ d₀ hr₀ hd₀
      rw [← hvisits] at htracks
      exact htracks
  · intro c hc
    obtain ⟨v, d₀, hv, hd₀, hproxy, hlocal, hresult⟩ := h.answers c hc
    by_cases hci : i = c.request
    · subst hci
      obtain ⟨hproxy', hlocal'⟩ := detect_addresses toLocaleLowerCase visit.headers d₀
      refine ⟨v, detect toLocaleLowerCase visit.headers d₀, hv, ?_, hproxy'.trans hproxy,
        hlocal'.trans hlocal, ?_⟩
      · simp [afterVisit, hd₀]
      · -- a call that has returned is not visited
        intro result houtcome
        have hid := (h.filed.handles c hc).2.1
        refine absurd ?_ (h.filed.returned c hc result houtcome)
        rw [hid]
        exact List.mem_map_of_mem (f := Prod.fst) hcached
    · refine ⟨v, d₀, hv, ?_, hproxy, hlocal, hresult⟩
      simp only [afterVisit, List.getElem?_modify, if_neg hci, hd₀]
      rfl

theorem Judged.detector (h : Judged ids toLocaleLowerCase dns localIp s) {i : Nat}
    {r : Requests.JudgeRequest} (hr : s.requests.requests[i]? = some r) :
    ∃ d, s.detectors[i]? = some d := by
  have hlt := (List.getElem?_eq_some_iff.mp hr).1
  rw [← h.length] at hlt
  exact ⟨_, List.getElem?_eq_getElem hlt⟩

theorem Judged.judge (h : Judged ids toLocaleLowerCase dns localIp s)
    (hids : Function.Injective ids) {path : Option Text} {headers : List (Text × Text)}
    {now : Nat} {enabled : Bool}
    (hstep : s.judge ids toLocaleLowerCase path headers now enabled = some t) :
    Judged ids toLocaleLowerCase dns localIp t := by
  cases hid : path.bind ServerConnection.judgeId with
  | none =>
      simp only [Verdicts.judge, hid, Option.pure_def, Option.some.injEq] at hstep
      rw [← hstep]
      exact h.unvisited _ (fun reqId => by simp [Visit.counts, hid])
  | some reqId =>
      cases hvisited : s.visited reqId enabled with
      | none =>
          have hcounts : ∀ id,
              Visit.counts id ⟨path, headers, s.statusCode path enabled⟩ = false := by
            obtain ⟨p, rfl, hp⟩ := Option.bind_eq_some_iff.mp hid
            intro id
            have hstatus : s.statusCode (some p) enabled ≠ some 200 := by
              simp only [statusCode, Option.bind_eq_bind, Option.bind_some, hp, hvisited]
              split <;> simp
            simp [Visit.counts, hstatus]
          simp only [Verdicts.judge, hid, hvisited, Option.bind_eq_bind, Option.pure_def,
            Option.bind_fun_some] at hstep
          obtain ⟨requests, hrequests, rfl⟩ := pass_eq_some hstep
          exact (h.unvisited _ hcounts).still (still_judge hrequests)
      | some i =>
          obtain ⟨-, hlookup, r, hr, hmonitor⟩ := visited_eq_some hvisited
          obtain ⟨d, hd⟩ := h.detector hr
          rw [judge_visited hid hvisited hd] at hstep
          cases hstep
          refine h.visit hids (mem_of_lookup hlookup) hr hmonitor hd _ now ?_
          intro id
          simp only [Visit.counts, hid, BEq.rfl, Bool.true_and, beq_iff_eq, Option.some.injEq]
          exact eq_comm

/-! ### The other steps -/

theorem Judged.handleRequest (h : Judged ids toLocaleLowerCase dns localIp s)
    (hids : Function.Injective ids) {n : Nat} {v : Validation}
    (hv : s.requests.validations[n]? = some v) (pair : ProtocolType × ProtocolType) :
    Judged ids toLocaleLowerCase dns localIp
      (s.handleRequest ids localIp n v.ip v.port pair) where
  filed := h.filed.handleRequest hids (List.getElem?_eq_some_iff.mp hv).1 pair
  length := by
    show (s.detectors ++ [_]).length = (s.requests.requests ++ [_]).length
    rw [List.length_append, List.length_append, h.length]
    rfl
  known visit hvisit reqId hcounts := by
    obtain ⟨i, hi, hid⟩ := h.known visit hvisit reqId hcounts
    exact ⟨i, Nat.lt_succ_of_lt hi, hid⟩
  tracks i r d hr hd := by
    obtain ⟨hi, rfl⟩ | ⟨hi, hrold⟩ := getElem?_concat_cases hr
    · obtain ⟨-, rfl⟩ | ⟨hne, -⟩ := getElem?_concat_cases hd
      · have hnone : s.visitsOf (ids i) = [] := by
          rw [visitsOf, List.filter_eq_nil_iff]
          intro visit hvisit hcounts
          obtain ⟨j, hj, hid⟩ := h.known visit hvisit _ hcounts
          rw [← hids hid, h.filed.inc, hi] at hj
          exact Nat.lt_irrefl _ hj
        show Tracks _ _ _ _ (s.visitsOf (ids i))
        rw [hnone]
        exact tracks_new _ _
      · exact absurd (hi.trans h.length.symm) hne
    · obtain ⟨hd', -⟩ | ⟨-, hdold⟩ := getElem?_concat_cases hd
      · exact absurd (hd'.trans h.length) hi
      · exact h.tracks i r d hrold hdold
  answers c hc := by
    rcases List.mem_append.mp hc with hold | hnew
    · obtain ⟨v', d, hv', hd, hfacts⟩ := h.answers c hold
      refine ⟨v', d, hv', ?_, hfacts⟩
      exact (List.getElem?_append_left (List.getElem?_eq_some_iff.mp hd).1).trans hd
    · rw [List.mem_singleton.mp hnew]
      refine ⟨v, { proxyIp := proxyIp pair.1 v.ip v.port, localIp := localIp }, hv, ?_, rfl, rfl,
        ?_⟩
      · show (s.detectors ++ [_])[s.requests.requests.length]? = _
        rw [← h.length, List.getElem?_concat_length]
      · intro result houtcome
        cases houtcome

theorem Judged.validate (h : Judged ids toLocaleLowerCase dns localIp s)
    (hids : Function.Injective ids) (ip : Text) (port : Nat) (enable : Enable)
    (addr : Option Text) :
    Judged ids toLocaleLowerCase dns localIp
      (s.validate ids localIp ip port enable addr) := by
  cases addr with
  | none => exact h
  | some addr =>
      have hfold : ∀ (l : List (ProtocolType × ProtocolType)) (s : Verdicts) (v : Validation)
          (n : Nat), s.requests.validations[n]? = some v →
          Judged ids toLocaleLowerCase dns localIp s →
          Judged ids toLocaleLowerCase dns localIp
            (l.foldl (Verdicts.handleRequest ids localIp n v.ip v.port) s) := by
        intro l
        induction l with
        | nil => exact fun s v n _ h => h
        | cons pair l ih => exact fun s v n hv h => ih _ v n hv (h.handleRequest hids hv pair)
      refine hfold _ _ ⟨enable, ip, addr, port, {}⟩ _ List.getElem?_concat_length ?_
      refine ⟨h.filed.addValidation _ rfl, h.length, h.known, h.tracks, ?_⟩
      intro c hc
      obtain ⟨v, d, hv, hd, hfacts⟩ := h.answers c hc
      refine ⟨v, d, ?_, hd, hfacts⟩
      exact (List.getElem?_append_left (List.getElem?_eq_some_iff.mp hv).1).trans hv

theorem Judged.prepared (h : Judged ids toLocaleLowerCase dns localIp s) {i : Nat}
    {r : Requests.JudgeRequest} (hr : s.requests.requests[i]? = some r)
    (hpreparing : r.progress = .preparing) (outcome : Except Rejection Nat) :
    Judged ids toLocaleLowerCase dns localIp
      { s.setDetector i (prepareDetector (dns i) outcome) with
        requests := s.requests.setRequest i (.prepared outcome) } where
  filed := h.filed.congr rfl (List.length_modify _ _ _) (List.Subset.refl _) rfl rfl
  length := by
    simp only [setDetector, Requests.setRequest, List.length_modify]
    exact h.length
  known := h.known
  tracks j r' d' hr' hd' := by
    simp only [setDetector, Requests.setRequest, List.getElem?_modify] at hr' hd'
    obtain ⟨r₀, hr₀, rfl⟩ := Option.map_eq_some_iff.mp hr'
    obtain ⟨d₀, hd₀, rfl⟩ := Option.map_eq_some_iff.mp hd'
    by_cases hij : i = j
    · subst hij
      rw [hr] at hr₀
      cases hr₀
      rw [if_pos rfl, if_pos rfl]
      exact (h.tracks i r d₀ hr hd₀).prepared hpreparing outcome
    · rw [if_neg hij, if_neg hij]
      exact h.tracks j r₀ d₀ hr₀ hd₀
  answers c hc := by
    obtain ⟨v, d, hv, hd, hproxy, hlocal, hresult⟩ := h.answers c hc
    obtain ⟨hproxy', hlocal', hlevel⟩ := prepareDetector_frame (dns i) outcome d
    by_cases hci : i = c.request
    · refine ⟨v, prepareDetector (dns i) outcome d, hv, ?_, hproxy'.trans hproxy,
        hlocal'.trans hlocal, fun result houtcome => (hresult result houtcome).trans hlevel.symm⟩
      simp [setDetector, hci, hd]
    · refine ⟨v, d, hv, ?_, hproxy, hlocal, hresult⟩
      simp [setDetector, hci, hd]

theorem Judged.goOn (h : Judged ids toLocaleLowerCase dns localIp s) {k : Nat}
    {c : HandleRequest} {r : Requests.JudgeRequest} (hk : s.requests.handles[k]? = some c)
    (hr : s.requests.requests[c.request]? = some r) (hnone : c.outcome = none) :
    Judged ids toLocaleLowerCase dns localIp
      { s with requests := s.requests.goOn k c r } := by
  have hfiled := h.filed.goOn r hk hnone
  obtain ⟨v, d, hv, hd, hproxy, hlocal, -⟩ := h.answers c (List.mem_of_getElem? hk)
  rcases goOn_cases s.requests k c r with ⟨e, heq⟩ | ⟨result, -, hlevel, heq⟩
  · rw [heq] at hfiled ⊢
    refine ⟨hfiled, h.length, h.known, h.tracks, ?_⟩
    intro c' hc'
    rcases List.mem_or_eq_of_mem_set hc' with hold | rfl
    · exact h.answers c' hold
    · refine ⟨v, d, hv, hd, hproxy, hlocal, ?_⟩
      intro result houtcome
      cases houtcome
  · have hstill : Still s.requests
        ((s.requests.removeFromCache c.id).setRequest c.request .clear) :=
      (still_removeFromCache _ _).trans (still_setRequest _ _ alike_clear)
    have hjudged := h.still hstill
    rw [heq] at hfiled ⊢
    refine ⟨hfiled, hjudged.length, hjudged.known, hjudged.tracks, ?_⟩
    have hvalidations : ∀ (n : Nat) (w : Validation), s.requests.validations[n]? = some w →
        ∃ w', (s.requests.validations.modify c.validation (·.push result))[n]? = some w' ∧
          w'.ip = w.ip ∧ w'.port = w.port := by
      intro n w hw
      rw [List.getElem?_modify, hw]
      refine ⟨_, rfl, ?_⟩
      split <;> exact ⟨rfl, rfl⟩
    intro c' hc'
    rcases List.mem_or_eq_of_mem_set hc' with hold | rfl
    · obtain ⟨w, d', hw, hd', hproxy', hfacts⟩ := h.answers c' hold
      obtain ⟨w', hw', hip, hport⟩ := hvalidations c'.validation w hw
      exact ⟨w', d', hw', hd', by rw [hproxy', hip, hport], hfacts⟩
    · obtain ⟨w', hw', hip, hport⟩ := hvalidations c.validation v hv
      refine ⟨w', d, hw', hd, by rw [hproxy, hip, hport], hlocal, ?_⟩
      intro result' houtcome
      cases houtcome
      exact hlevel.trans (h.tracks _ r d hr hd).level

theorem Judged.step (h : Judged ids toLocaleLowerCase dns localIp s)
    (hids : Function.Injective ids) {a : Action}
    (hstep : step ids toLocaleLowerCase dns localIp s a = some t) :
    Judged ids toLocaleLowerCase dns localIp t := by
  cases a with
  | validate ip port enable addr =>
      cases hstep
      exact h.validate hids ip port enable addr
  | prepared i outcome =>
      obtain ⟨requests, hrequests, rfl⟩ := pass_eq_some hstep
      simp only [Requests.step, setDetector] at hrequests
      split at hrequests
      · rename_i r hr
        rw [Option.ite_none_right_eq_some] at hrequests
        obtain ⟨hpreparing, hrequests⟩ := hrequests
        cases hrequests
        exact h.prepared hr hpreparing outcome
      · cases hrequests
  | emit i now e =>
      obtain ⟨requests, hrequests, rfl⟩ := pass_eq_some hstep
      cases hrequests
      exact h.still (still_setRequest _ _ (alike_emit now e))
  | judge path headers now enabled => exact h.judge hids hstep
  | socketEnds id =>
      obtain ⟨requests, hrequests, rfl⟩ := pass_eq_some hstep
      simp only [Requests.step, Option.ite_none_right_eq_some, Option.some.injEq] at hrequests
      obtain ⟨-, rfl⟩ := hrequests
      exact h.still ((still_removeByOther _ id).trans
        (still_of_requests rfl rfl (List.Subset.refl _) rfl rfl))
  | pending =>
      obtain ⟨requests, hrequests, rfl⟩ := pass_eq_some hstep
      cases hrequests
      exact h.still (still_clearCache _)
  | goOn k =>
      obtain ⟨requests, hrequests, rfl⟩ := pass_eq_some hstep
      simp only [Requests.step] at hrequests
      split at hrequests
      · rename_i c hk
        split at hrequests
        · rename_i r hr
          rw [Option.ite_none_right_eq_some] at hrequests
          obtain ⟨⟨hnone, -⟩, hrequests⟩ := hrequests
          cases hrequests
          exact h.goOn hk hr (Option.isNone_iff_eq_none.mp hnone)
        · cases hrequests
      · cases hrequests

theorem judged_run (hids : Function.Injective ids) {as : List Action}
    (h : (machine ids toLocaleLowerCase dns localIp).run {} as = some s) :
    Judged ids toLocaleLowerCase dns localIp s :=
  (machine ids toLocaleLowerCase dns localIp).run_invariant
    (fun _ _ _ hs hstep => hs.step hids hstep) .empty h

/-! ### As runs of the requests -/

theorem requests_validate (s : Verdicts) (ip : Text) (port : Nat) (enable : Enable)
    (addr : Option Text) : (s.validate ids localIp ip port enable addr).requests =
      s.requests.validate ids ip port enable addr := by
  cases addr with
  | none => rfl
  | some addr =>
      have hfold : ∀ (l : List (ProtocolType × ProtocolType)) (n : Nat) (s : Verdicts),
          (l.foldl (Verdicts.handleRequest ids localIp n addr port) s).requests =
            l.foldl (Requests.handleRequest ids n) s.requests := by
        intro l n
        induction l with
        | nil => exact fun _ => rfl
        | cons pair l ih => exact fun s => ih (s.handleRequest ids localIp n addr port pair)
      exact hfold _ _ _

/-- What `judge` does to the requests, and which visit is noted. -/
theorem judge_spec {path : Option Text} {headers : List (Text × Text)} {now : Nat}
    {enabled : Bool} (h : s.judge ids toLocaleLowerCase path headers now enabled = some t) :
    (∃ bs, (Requests.machine ids).run s.requests bs = some t.requests) ∧
      t.requests.inc = s.requests.inc ∧ t.requests.cache ⊆ s.requests.cache ∧
      t.visits = s.visits ++ [⟨path, headers, s.statusCode path enabled⟩] := by
  cases hid : path.bind ServerConnection.judgeId with
  | none =>
      simp only [Verdicts.judge, hid, Option.pure_def, Option.some.injEq] at h
      rw [← h]
      exact ⟨⟨[], rfl⟩, rfl, List.Subset.refl _, rfl⟩
  | some reqId =>
      simp only [Verdicts.judge, hid, Option.bind_eq_bind, Option.bind_eq_some_iff] at h
      obtain ⟨u, hu, h⟩ := h
      obtain ⟨requests, hrequests, rfl⟩ := pass_eq_some hu
      have hstill := still_judge hrequests
      cases hvisited : s.visited reqId enabled with
      | none =>
          simp only [hvisited, Option.pure_def, Option.some.injEq] at h
          rw [← h]
          refine ⟨⟨[.judge reqId now enabled], ?_⟩, hstill.inc, hstill.cache, rfl⟩
          rw [Machine.run_singleton]
          exact hrequests
      | some i =>
          simp only [hvisited, Option.bind_eq_some_iff] at h
          obtain ⟨d, -, h⟩ := h
          obtain ⟨requests', hrequests', rfl⟩ := pass_eq_some h
          refine ⟨⟨[.judge reqId now enabled, .detected i d.level], ?_⟩, ?_, ?_, rfl⟩
          · rw [Machine.run_cons_eq_some]
            exact ⟨requests, hrequests, by rw [Machine.run_singleton]; exact hrequests'⟩
          · cases hrequests'
            exact hstill.inc
          · cases hrequests'
            exact hstill.cache

/-- **A run with its visits is a run of the requests**, each level found
where `onJudge` finds it. -/
theorem requests_run {as : List Action}
    (h : (machine ids toLocaleLowerCase dns localIp).run s as = some t) :
    ∃ bs, (Requests.machine ids).run s.requests bs = some t.requests := by
  have hpass : ∀ (s t : Verdicts) (b : Requests.Action), s.pass ids b = some t →
      ∃ bs, (Requests.machine ids).run s.requests bs = some t.requests := by
    intro s t b hstep
    obtain ⟨requests, hrequests, rfl⟩ := pass_eq_some hstep
    exact ⟨[b], by rw [Machine.run_singleton]; exact hrequests⟩
  induction as generalizing s with
  | nil =>
      cases h
      exact ⟨[], rfl⟩
  | cons a as ih =>
      obtain ⟨u, hstep, hrest⟩ :=
        (machine ids toLocaleLowerCase dns localIp).run_cons_eq_some.mp h
      obtain ⟨cs, hcs⟩ := ih hrest
      have hfirst : ∃ bs, (Requests.machine ids).run s.requests bs = some u.requests := by
        cases a with
        | validate ip port enable addr =>
            cases hstep
            exact ⟨[.validate ip port enable addr], congrArg some (requests_validate ..).symm⟩
        | prepared i outcome => exact hpass (s.setDetector i _) u (.prepared i outcome) hstep
        | emit i now e => exact hpass s u (.emit i now e) hstep
        | judge path headers now enabled => exact (judge_spec hstep).1
        | socketEnds id => exact hpass s u (.socketEnds id) hstep
        | pending => exact hpass s u .pending hstep
        | goOn k => exact hpass s u (.goOn k) hstep
      obtain ⟨bs, hbs⟩ := hfirst
      exact ⟨bs ++ cs, by rw [Machine.run_append, hbs, Option.bind_some, hcs]⟩

/-! ## The results -/

/-- What a result says, as the visits have it. -/
theorem Judged.result (h : Judged ids toLocaleLowerCase dns localIp s) {n : Nat} {v : Validation}
    (hv : s.requests.validations[n]? = some v) {result : JudgeResult}
    (hresult : result ∈ v.results.variants) :
    ∃ c ∈ s.requests.handles, c.validation = n ∧ c.pair = variantPair result ∧
      c.outcome = some (.ok result) ∧ c.id = ids c.request ∧
      result.level = verdict toLocaleLowerCase (createAddrRegex (dns c.request) localIp)
        (createAddrRegex (dns c.request) (proxyIp result.protocolFrom v.ip v.port))
        (s.visitsOf c.id) := by
  obtain ⟨c, hc, rfl, houtcome, hpair⟩ := h.filed.variants n v hv result hresult
  obtain ⟨hlt, hid, -⟩ := h.filed.handles c hc
  obtain ⟨w, d, hw, hd, hproxy, hlocal, hlevel⟩ := h.answers c hc
  rw [hv] at hw
  cases hw
  have hr := List.getElem?_eq_getElem (h.filed.inc ▸ hlt)
  have hverdict := (h.tracks c.request _ d hr hd).verdict
  rw [hproxy, hlocal, (Prod.mk.inj hpair).1, ← hid] at hverdict
  exact ⟨c, hc, rfl, hpair, houtcome, hid, (hlevel result houtcome).trans hverdict⟩

/-- **Where a level comes from.** In every run of a judge, the variants of
a validation are for different pairs of protocols, and each is the outcome
of the one call of this validation for its pair. Its level is what the
headers of the visits make it that asked for the id of this call and were
answered 200: -1 without one, and above 0 with one. -/
theorem verdict_run (hids : Function.Injective ids) {as : List Action}
    (h : (machine ids toLocaleLowerCase dns localIp).run {} as = some s) {n : Nat}
    {v : Validation} (hv : s.requests.validations[n]? = some v) {result : JudgeResult}
    (hresult : result ∈ v.results.variants) :
    (v.results.variants.map variantPair).Nodup ∧
    ∃ c ∈ s.requests.handles, c.validation = n ∧ c.pair = variantPair result ∧
      (∀ d ∈ s.requests.handles, d.validation = n → d.pair = variantPair result → d = c) ∧
      c.outcome = some (.ok result) ∧ c.id = ids c.request ∧
      result.level = verdict toLocaleLowerCase (createAddrRegex (dns c.request) localIp)
        (createAddrRegex (dns c.request) (proxyIp result.protocolFrom v.ip v.port))
        (s.visitsOf c.id) ∧
      (0 < result.level ↔ s.visitsOf c.id ≠ []) := by
  obtain ⟨bs, hbs⟩ := requests_run h
  have hbooks : Books s.requests := books_run books_empty hbs
  obtain ⟨c, hc, hvalidation, hpair, houtcome, hid, hlevel⟩ :=
    (judged_run hids h).result hv hresult
  refine ⟨hbooks.variants_nodup hv, c, hc, hvalidation, hpair, ?_, houtcome, hid, hlevel, ?_⟩
  · intro d hd hdn hdpair
    exact hbooks.eq_of_pair hv hd hc hdn hvalidation (hdpair.trans hpair.symm)
  · rw [hlevel]
    exact verdict_pos_iff

end

/-- No name has an address, and no address a name. -/
def noLookups : DomainUtils := ⟨fun _ => none, fun _ => []⟩

/-- A proxy that names itself visits the judge for its first request. -/
def exampleActions : List Action :=
  [.validate "10.0.0.3".toList 8080 { https := false } (some "10.0.0.3".toList),
    .prepared 0 (.ok 5), .prepared 1 (.ok 5),
    .judge (some "/judge/q".toList) [("via".toList, "1.1 cache".toList)] 7 true,
    .emit 0 9 .close, .emit 1 9 .close, .goOn 0, .goOn 1]

def exampleJudge : Verdicts :=
  ((machine letters id (fun _ => noLookups) "10.0.0.1".toList).run {} exampleActions).getD {}

def exampleResult : JudgeResult where
  protocolFrom := .http
  protocolTo := .http
  level := 2
  start := 5
  stop := 9
  duration := 4

theorem verdict_run_via : ∃ v, exampleJudge.requests.validations[0]? = some v ∧
    (v.results.variants.map variantPair).Nodup ∧
    ∃ c ∈ exampleJudge.requests.handles, c.validation = 0 ∧
      c.pair = variantPair exampleResult ∧
      (∀ d ∈ exampleJudge.requests.handles, d.validation = 0 →
        d.pair = variantPair exampleResult → d = c) ∧
      c.outcome = some (.ok exampleResult) ∧ c.id = letters c.request ∧
      exampleResult.level = verdict id (createAddrRegex noLookups "10.0.0.1".toList)
        (createAddrRegex noLookups (proxyIp .http v.ip v.port)) (exampleJudge.visitsOf c.id) ∧
      exampleJudge.visitsOf c.id ≠ [] := by
  have hrun : (machine letters id (fun _ => noLookups) "10.0.0.1".toList).run {} exampleActions =
      some exampleJudge := rfl
  obtain ⟨v, hv, hresult⟩ : ∃ v, exampleJudge.requests.validations[0]? = some v ∧
      exampleResult ∈ v.results.variants := ⟨_, rfl, by decide +kernel⟩
  obtain ⟨hnodup, c, hc, hvalidation, hpair, honly, houtcome, hid, hlevel, hvisits⟩ :=
    verdict_run letters_initial.injective hrun hv hresult
  exact ⟨v, hv, hnodup, c, hc, hvalidation, hpair, honly, houtcome, hid, hlevel,
    hvisits.mp (by decide)⟩

end Verdicts

end ProxyBroker.Judge
