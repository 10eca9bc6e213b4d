/-
ProxyBroker.Judge.VisitsTheorems — how long an id is good for a visit.

An id is given away once, and three steps end it: its call of
`handleRequest` returns, the socket of a visit to it ends, or `pending` is
called while the judge is up. From then on every visit that asks for it is
answered 400, so what a proxy remembers of a check is of no use behind it
(`closed_run`).

A call that rejects does not end its id: its request is left in the cache.
-/
import ProxyBroker.Judge.VerdictsTheorems

namespace ProxyBroker.Judge

open Lib Server Proxy

namespace Verdicts

open Requests LevelDetection

variable {ids : Nat → Text} {toLocaleLowerCase : Text → Text} {dns : Nat → DomainUtils}
  {localIp : Text} {s t u : Verdicts} {i : Nat}

/-- The request has been made and its id is not cached. -/
structure Closed (ids : Nat → Text) (i : Nat) (s : Verdicts) : Prop where
  made : i < s.requests.inc
  uncached : ids i ∉ s.requests.cache.map Prod.fst

/-- The steps that end the id of a request. -/
def Ends (ids : Nat → Text) (i : Nat) (s : Verdicts) : Action → Prop
  | .goOn k => ∃ c r, s.requests.handles[k]? = some c ∧ c.request = i ∧
      s.requests.requests[i]? = some r ∧ r.monitor.isSome = true
  | .socketEnds id => id = ids i
  | .pending => True
  | _ => False

/-! ## Closed for good -/

theorem Closed.of_subset (h : Closed ids i s) (hinc : t.requests.inc = s.requests.inc)
    (hcache : t.requests.cache ⊆ s.requests.cache) : Closed ids i t where
  made := hinc ▸ h.made
  uncached hmem := h.uncached (List.map_subset _ hcache hmem)

theorem Closed.handleRequest (h : Closed ids i s) (hids : Function.Injective ids) (n : Nat)
    (addr : Text) (port : Nat) (pair : ProtocolType × ProtocolType) :
    Closed ids i (s.handleRequest ids localIp n addr port pair) where
  made := Nat.lt_succ_of_lt h.made
  uncached hmem := by
    obtain ⟨p, hp, hpid⟩ := List.mem_map.mp hmem
    rcases List.mem_append.mp hp with hold | hnew
    · exact h.uncached (hpid ▸ List.mem_map_of_mem hold)
    · rw [List.mem_singleton.mp hnew] at hpid
      exact absurd (hids hpid) (Nat.ne_of_gt h.made)

theorem visits_validate (s : Verdicts) (ip : Text) (port : Nat) (enable : Enable)
    (addr : Option Text) : (s.validate ids localIp ip port enable addr).visits = s.visits := by
  cases addr with
  | none => rfl
  | some addr =>
      have hfold : ∀ (l : List (ProtocolType × ProtocolType)) (n : Nat) (s : Verdicts),
          (l.foldl (Verdicts.handleRequest ids localIp n addr port) s).visits = s.visits := by
        intro l n
        induction l with
        | nil => exact fun _ => rfl
        | cons pair l ih => exact fun s => ih (s.handleRequest ids localIp n addr port pair)
      exact hfold _ _ _

theorem Closed.validate (h : Closed ids i s) (hids : Function.Injective ids) (ip : Text)
    (port : Nat) (enable : Enable) (addr : Option Text) :
    Closed ids i (s.validate ids localIp ip port enable addr) := by
  cases addr with
  | none => exact h
  | some addr =>
      have hfold : ∀ (l : List (ProtocolType × ProtocolType)) (n : Nat) (s : Verdicts),
          Closed ids i s →
          Closed ids i (l.foldl (Verdicts.handleRequest ids localIp n addr port) s) := by
        intro l n
        induction l with
        | nil => exact fun _ h => h
        | cons pair l ih => exact fun s h => ih _ (h.handleRequest hids n addr port pair)
      exact hfold _ _ _ ⟨h.made, h.uncached⟩

/-- The visits that ask for the id are answered 400. -/
def Refused (id : Text) (visits : List Visit) : Prop :=
  ∀ visit ∈ visits, visit.path.bind ServerConnection.judgeId = some id → visit.statusCode = some 400

theorem statusCode_of_uncached {path : Option Text} {id : Text} {enabled : Bool}
    (hid : path.bind ServerConnection.judgeId = some id)
    (hhash : id ∉ ServerConnection.objectPrototype) (h : id ∉ s.requests.cache.map Prod.fst) :
    s.statusCode path enabled = some 400 := by
  obtain ⟨p, rfl, hp⟩ := Option.bind_eq_some_iff.mp hid
  have hcached : s.requests.cached id = false := by
    rw [Bool.eq_false_iff]
    exact fun hc => (cached_iff.mp hc).elim h hhash
  simp [statusCode, hp, hcached]

theorem Closed.step (h : Closed ids i s) (hids : Function.Injective ids)
    (hhash : ids i ∉ ServerConnection.objectPrototype) {a : Action}
    (hstep : step ids toLocaleLowerCase dns localIp s a = some t) :
    Closed ids i t ∧ ∃ later, t.visits = s.visits ++ later ∧ Refused (ids i) later := by
  have hnone : ∀ {t : Verdicts}, t.visits = s.visits →
      ∃ later, t.visits = s.visits ++ later ∧ Refused (ids i) later := by
    intro t hvisits
    refine ⟨[], by rw [hvisits, List.append_nil], ?_⟩
    intro visit hvisit
    cases hvisit
  have hpass : ∀ {d : List LevelDetection} {b : Requests.Action},
      (∀ ip port enable addr, b ≠ .validate ip port enable addr) →
      ({ s with detectors := d } : Verdicts).pass ids b = some t →
      Closed ids i t ∧ ∃ later, t.visits = s.visits ++ later ∧ Refused (ids i) later := by
    intro d b hb hstep
    obtain ⟨requests, hrequests, rfl⟩ := pass_eq_some hstep
    obtain ⟨hinc, hcache⟩ := shrinks hrequests hb
    exact ⟨h.of_subset hinc hcache, hnone rfl⟩
  cases a with
  | validate ip port enable addr =>
      cases hstep
      exact ⟨h.validate hids ip port enable addr, hnone (visits_validate s ip port enable addr)⟩
  | prepared i' outcome => exact hpass (b := .prepared i' outcome) (by simp) hstep
  | emit i' now e => exact hpass (d := s.detectors) (b := .emit i' now e) (by simp) hstep
  | judge path headers now enabled =>
      obtain ⟨-, hinc, hcache, hvisits⟩ := judge_spec hstep
      refine ⟨h.of_subset hinc hcache, _, hvisits, ?_⟩
      intro visit hvisit hid
      rw [List.mem_singleton.mp hvisit] at hid ⊢
      exact statusCode_of_uncached hid hhash h.uncached
  | socketEnds id => exact hpass (d := s.detectors) (b := .socketEnds id) (by simp) hstep
  | pending => exact hpass (d := s.detectors) (b := .pending) (by simp) hstep
  | goOn k => exact hpass (d := s.detectors) (b := .goOn k) (by simp) hstep

theorem Closed.run (h : Closed ids i s) (hids : Function.Injective ids)
    (hhash : ids i ∉ ServerConnection.objectPrototype) {as : List Action}
    (hrun : (machine ids toLocaleLowerCase dns localIp).run s as = some t) :
    ∃ later, t.visits = s.visits ++ later ∧ Refused (ids i) later := by
  induction as generalizing s with
  | nil =>
      cases hrun
      refine ⟨[], (List.append_nil _).symm, ?_⟩
      intro visit hvisit
      cases hvisit
  | cons a as ih =>
      obtain ⟨s', hstep, hrest⟩ :=
        (machine ids toLocaleLowerCase dns localIp).run_cons_eq_some.mp hrun
      obtain ⟨hclosed, now, hnow, hrefused⟩ := h.step hids hhash hstep
      obtain ⟨later, hlater, hrefused'⟩ := ih hclosed hrest
      refine ⟨now ++ later, by rw [hlater, hnow, List.append_assoc], ?_⟩
      intro visit hvisit
      exact (List.mem_append.mp hvisit).elim (hrefused visit) (hrefused' visit)

/-! ## What closes -/

theorem uncached_removeByOther (s : Requests) (id : Text) :
    id ∉ (s.removeByOther id).cache.map Prod.fst := by
  unfold removeByOther
  split
  · rw [removeFromCache_cache]
    simp
  · rename_i h
    exact fun hmem => h (cached_iff.mpr (.inl hmem))

theorem uncached_clearCache (s : Requests) (id : Text) : id ∉ s.clearCache.cache.map Prod.fst := by
  have hfold : ∀ (l : List (Text × Nat)) (s : Requests),
      Still s (l.foldl (fun s p => (s.setRequest p.2 .clear).removeByOther p.1) s) ∧
        ∀ id ∈ l.map Prod.fst, id ∉
          (l.foldl (fun s p => (s.setRequest p.2 .clear).removeByOther p.1) s).cache.map
            Prod.fst := by
    intro l
    induction l with
    | nil => exact fun s => ⟨still_of_requests rfl rfl (List.Subset.refl _) rfl rfl, by simp⟩
    | cons p l ih =>
        intro s
        obtain ⟨hstill, hgone⟩ := ih ((s.setRequest p.2 .clear).removeByOther p.1)
        refine ⟨((still_setRequest s p.2 alike_clear).trans (still_removeByOther _ p.1)).trans
          hstill, ?_⟩
        intro id hid
        rcases List.mem_cons.mp hid with rfl | hrest
        · exact fun hmem => uncached_removeByOther _ _ (List.map_subset _ hstill.cache hmem)
        · exact hgone id hrest
  intro hmem
  obtain ⟨hstill, hgone⟩ := hfold s.cache s
  exact hgone id (List.map_subset _ hstill.cache hmem) hmem

theorem Judged.closed (h : Judged ids toLocaleLowerCase dns localIp s)
    (hi : i < s.requests.inc) {a : Action} (ha : Ends ids i s a)
    (hstep : Verdicts.step ids toLocaleLowerCase dns localIp s a = some t) : Closed ids i t := by
  cases a with
  | goOn k =>
      obtain ⟨c, r, hk, rfl, hr, hmonitor⟩ := ha
      obtain ⟨m, hm⟩ := Option.isSome_iff_exists.mp hmonitor
      obtain ⟨requests, hrequests, rfl⟩ := pass_eq_some hstep
      simp only [Requests.step, hk, hr, Option.ite_none_right_eq_some, Option.some.injEq]
        at hrequests
      obtain ⟨-, rfl⟩ := hrequests
      obtain ⟨result, -, heq⟩ := goOn_ok (s := s.requests) (k := k) (h := c) hm
      have hinc := (removeFromCache_frame s.requests c.id).1
      have hid := (h.filed.handles c (List.mem_of_getElem? hk)).2.1
      refine ⟨?_, ?_⟩
      · rw [heq]
        exact hinc ▸ hi
      · rw [heq, ← hid]
        simp [Requests.setRequest, removeFromCache_cache]
  | socketEnds id =>
      obtain rfl : id = ids i := ha
      obtain ⟨requests, hrequests, rfl⟩ := pass_eq_some hstep
      simp only [Requests.step, Option.ite_none_right_eq_some, Option.some.injEq] at hrequests
      obtain ⟨-, rfl⟩ := hrequests
      exact ⟨(still_removeByOther s.requests (ids i)).inc ▸ hi, uncached_removeByOther _ _⟩
  | pending =>
      obtain ⟨requests, hrequests, rfl⟩ := pass_eq_some hstep
      cases hrequests
      exact ⟨(still_clearCache s.requests).inc ▸ hi, uncached_clearCache _ _⟩
  | validate | prepared | emit | judge => cases ha

/-- **An id is good for one check.** When the call of a request returns, the
socket of one of its visits ends or `pending` is called while the judge is
up, then in every run from there all visits that ask for its id are
answered 400. No id is made twice, and none is a name every object has. -/
theorem closed_run (hids : Function.Injective ids)
    (hhash : ids i ∉ ServerConnection.objectPrototype) {as : List Action}
    (h : (machine ids toLocaleLowerCase dns localIp).run {} as = some s)
    (hi : i < s.requests.inc) {a : Action} (ha : Ends ids i s a)
    (hstep : (machine ids toLocaleLowerCase dns localIp).step s a = some t) {bs : List Action}
    (hrest : (machine ids toLocaleLowerCase dns localIp).run t bs = some u) :
    ∃ later, u.visits = t.visits ++ later ∧
      ∀ visit ∈ later, visit.path.bind ServerConnection.judgeId = some (ids i) →
        visit.statusCode = some 400 :=
  ((judged_run hids h).closed hi ha hstep).run hids hhash hrest

/-- A run of the judge of the example. -/
def exampleRun (s : Verdicts) (as : List Action) : Verdicts :=
  ((machine letters id (fun _ => noLookups) "10.0.0.1".toList).run s as).getD {}

/-- Both requests wait for their calls, one of them was visited. -/
def waiting : Verdicts := exampleRun {} (exampleActions.take 6)

/-- The visit, once more. -/
def again : Action := .judge (some "/judge/q".toList) [("via".toList, "1.1 cache".toList)] 11 true

theorem closed_run_again :
    ∃ later, (exampleRun (exampleRun waiting [.goOn 0]) [again]).visits =
        (exampleRun waiting [.goOn 0]).visits ++ later ∧
      ∀ visit ∈ later, visit.path.bind ServerConnection.judgeId = some (letters 0) →
        visit.statusCode = some 400 := by
  have hends : Ends letters 0 waiting (.goOn 0) := ⟨_, _, rfl, rfl, rfl, rfl⟩
  exact @closed_run letters id (fun _ => noLookups) "10.0.0.1".toList waiting
    (exampleRun waiting [.goOn 0]) (exampleRun (exampleRun waiting [.goOn 0]) [again]) 0
    letters_initial.injective (letters_initial.hashes 0) (exampleActions.take 6) rfl (by decide)
    (.goOn 0) hends rfl [again] rfl

end Verdicts

end ProxyBroker.Judge
