/-
ProxyBroker.Proxy.PipelineTheorems — from the judge to a call of `next`:
`store` writes what the judge has found, and what is handed out comes from
the tables (`Sound.source`).

* `Stored` — the states and addresses of the tables are those behind some
  run of `store` calls, whatever `doLog` has marked since;
* `Filled.suitable` — then whatever a call of `next` gets was validated
  under its ip and port with a result that is no error and matches the
  selector `parseProxyHeader` makes of the call's;
* `handed_out_visited` — with the results of a judge, it has visited the
  judge, and its level is what its headers there make it.
-/
import ProxyBroker.Judge.VerdictsTheorems
import ProxyBroker.Proxy.CandidatesTheorems
import ProxyBroker.Proxy.SelectedResultsTheorems
import ProxyBroker.Proxy.StoreSourceTheorems

namespace ProxyBroker.Proxy.Candidates

open Lib Server ProxyFetch Storage

/-- What `store` writes of an address; its marks are `doLog`'s as well. -/
def identity (a : Storage.IpAddr) : Nat × Nat × Text × Nat := (a.id, a.validationId, a.key)

/-- The tables are behind calls of `store` with data that was `validated`. -/
def Stored (options : ValidatorOptions) (validated : ProxyData → Prop) (tables : Tables) : Prop :=
  ∃ s as t, s.db.Wf ∧ s.calls = [] ∧ s.db.states = [] ∧
    (Store.machine options).run s as = some t ∧ (∀ c ∈ t.calls, validated c.data) ∧
    tables.states = t.db.states ∧ tables.addrs.map identity = t.db.addrs.map identity

section

variable {options : ValidatorOptions} {validated : ProxyData → Prop} {tables : Tables}
variable {env : NextCalls.Env} {fetchSize : Nat} {s s' : Pool}

/-- A query is recorded with the tables it was answered from. -/
theorem tables_of_record {call : Call} {res : Option (List Row)} {q : Answer}
    (h : q ∈ record s call res) : q.tables = s.tables := by
  unfold record at h
  split at h
  · rw [List.mem_singleton.mp h]
  · cases h

/-- A row of the joined tables was validated. -/
theorem Stored.row (h : Stored options validated tables) {row : Row}
    (hrow : row ∈ tables.joinedRows) :
    ∃ data results r, validated data ∧ (data.ip, data.port) = row.ip.key ∧
      data.results = some results ∧ r ∈ results.variants ∧ row.state = (buildState row.ip r).1 := by
  obtain ⟨s, as, t, hwf, hcalls, hstates, hrun, hvalidated, hsame, haddrs⟩ := h
  simp only [Tables.joinedRows, List.mem_flatMap, List.mem_map] at hrow
  obtain ⟨ip, hip, state, hstate, rfl⟩ := hrow
  obtain ⟨a, ha, hid⟩ : ∃ a ∈ t.db.addrs, identity a = identity ip := by
    have hmem : identity ip ∈ tables.addrs.map identity := List.mem_map_of_mem hip
    rw [haddrs] at hmem
    exact List.mem_map.mp hmem
  obtain ⟨haddrId, hvalidationId, hkey⟩ : a.id = ip.id ∧ a.validationId = ip.validationId ∧
      a.key = ip.key := by simpa [identity] using hid
  have hjoined : state ∈ t.db.joined a := by
    rw [Database.joined, haddrId, hvalidationId, ← hsame]
    exact hstate
  obtain ⟨c, hc, hckey, results, hresults, r, hr, hbuilt⟩ :=
    (Store.sourced_run hwf hcalls hstates hrun).joined ha hjoined
  refine ⟨c.data, results, r, hvalidated c hc, hckey.trans hkey, hresults, hr, ?_⟩
  rw [hbuilt]
  simp [buildState, haddrId, hvalidationId]

/-- The tables were stored, now and whenever a query was answered. -/
structure Filled (options : ValidatorOptions) (validated : ProxyData → Prop) (s : Pool) : Prop where
  tables : Stored options validated s.tables
  answered : ∀ q ∈ s.answered, Stored options validated q.tables

theorem Filled.step (h : Filled options validated s) {a : Action}
    (ha : ∀ tables, a = .tables tables → Stored options validated tables)
    (hstep : step env fetchSize s a = some s') : Filled options validated s' := by
  cases a with
  | tables tables =>
      cases hstep
      exact ⟨ha tables rfl, h.answered⟩
  | cacheQuery reqId =>
      cases hstep
      exact ⟨h.tables, h.answered⟩
  | doEnqueue workLoad =>
      cases hstep
      exact ⟨h.tables, h.answered⟩
  | callGo i rejected =>
      simp only [Candidates.step] at hstep
      split at hstep
      · cases hstep
        refine ⟨h.tables, ?_⟩
        intro q hq
        rcases List.mem_append.mp hq with hold | hnew
        · exact h.answered q hold
        · rw [tables_of_record hnew]
          exact h.tables
      · cases hstep
  | checked i succeeded =>
      simp only [Candidates.step] at hstep
      split at hstep
      · split at hstep
        · obtain ⟨calls, -, rfl⟩ := Option.map_eq_some_iff.mp hstep
          exact ⟨h.tables, h.answered⟩
        · cases hstep
          exact ⟨h.tables, h.answered⟩
      · cases hstep
  | jobSettled i =>
      simp only [Candidates.step] at hstep
      split at hstep
      · cases hstep
        exact ⟨h.tables, h.answered⟩
      · cases hstep
  | calls a =>
      simp only [Candidates.step] at hstep
      split at hstep
      · obtain ⟨calls, -, rfl⟩ := Option.map_eq_some_iff.mp hstep
        exact ⟨h.tables, h.answered⟩
      · cases hstep

/-- An entity that was validated and matches the parsed selector. -/
def Suitable (validated : ProxyData → Prop) (select : Object) (a : IpAddr) : Prop :=
  selectorMatches (parseProxyHeader select) a.state = true ∧
    ∃ data results r, validated data ∧ data.results = some results ∧ r ∈ results.variants ∧
      r.error = none ∧ 0 < r.level ∧ a.ip = data.ip ∧ a.port = data.port ∧
      a.state = ⟨r.protocolFrom, r.protocolTo, r.level, r.duration.toNat⟩

theorem Suitable.same {select : Object} {a b : IpAddr} (h : Suitable validated select a)
    (hsame : Rotator.SameProxy a b) : Suitable validated select b := by
  unfold Suitable at h ⊢
  rw [hsame.ip, hsame.port, hsame.state]
  exact h

/-- What a call gets in a step was validated under its ip and port, with a
result that is no error, and as what the result says it matches the parsed
selector of the call. -/
theorem Filled.suitable (hfilled : Filled options validated s) (hsound : Sound s) {a : Action}
    (hstep : Candidates.step env fetchSize s a = some s') {c : Nat} {e : Ref}
    (hin : (c, some e) ∈ s'.calls.settled) (hnew : (c, some e) ∉ s.calls.settled) :
    ∃ select, s'.calls.asked[c]? = some select ∧
      Suitable validated select (s.calls.rotator.heap e) := by
  obtain ⟨select, q, row, hselect, hq, hrow, hmeets, hsame, hmatches⟩ :=
    hsound.source hstep hin hnew
  obtain ⟨data, results, r, hvalidated, hkey, hresults, hr, hstate⟩ :=
    (hfilled.answered q hq).row hrow
  obtain ⟨hip, hport⟩ := Prod.mk.inj hkey
  have hlevel : 0 < r.level := by
    have hjudged := hmeets.judged
    rwa [hstate] at hjudged
  have henabled : enables r = true := by
    have hstored := hmeets.enabled
    rwa [hstate] at hstored
  refine ⟨select, hselect, ?_, data, results, r, hvalidated, hresults, hr,
    (enables_of_judged hlevel).mp henabled, hlevel, hsame.ip.trans hip.symm,
    hsame.port.trans hport.symm, ?_⟩
  · rw [hsame.state]
    exact hmatches
  · rw [hsame.state, entityOf, hstate]
    rfl

theorem Filled.start {s₀ : Pool} (hidle : Idle s₀)
    (hstored : Stored options validated s₀.tables) : Filled options validated s₀ := by
  refine ⟨hstored, ?_⟩
  intro q hq
  rw [hidle.answered] at hq
  cases hq

/-- The data of `do`: what `validate` has returned for its ip and port. -/
def Found (judge : Judge.Verdicts) (data : ProxyData) : Prop :=
  ∃ v ∈ judge.requests.validations, data.ip = v.host ∧ data.port = v.port ∧
    data.results = some v.results

/-- **From the judge to the client.** Over tables that `store` has written
with the results of a judge, whatever a call of `next` gets in any run of
the rotator has visited this judge: for the request of the validation of
this proxy with the protocols it is handed out with, and its level is what
the headers of these visits make it. -/
theorem handed_out_visited {ids : Nat → Text} (hids : Function.Injective ids)
    {toLocaleLowerCase : Text → Text} {dns : Nat → Judge.DomainUtils} {localIp : Text}
    {visits : List Judge.Verdicts.Action} {judge : Judge.Verdicts}
    (hjudge : (Judge.Verdicts.machine ids toLocaleLowerCase dns localIp).run {} visits = some judge)
    {s₀ : Pool} (hidle : Idle s₀) (hstored : Stored options (Found judge) s₀.tables)
    {as : List Action} (htables : ∀ tables, .tables tables ∈ as →
      Stored options (Found judge) tables)
    (h : (machine env fetchSize).run s₀ as = some s) {a : Action}
    (hstep : (machine env fetchSize).step s a = some s') {c : Nat} {e : Ref}
    (hin : (c, some e) ∈ s'.calls.settled) (hnew : (c, some e) ∉ s.calls.settled) :
    ∃ select, s'.calls.asked[c]? = some select ∧
      selectorMatches (parseProxyHeader select) (s.calls.rotator.heap e).state = true ∧
    ∃ n v, judge.requests.validations[n]? = some v ∧ (s.calls.rotator.heap e).ip = v.host ∧
      (s.calls.rotator.heap e).port = v.port ∧
    ∃ r ∈ v.results.variants, r.error = none ∧
      (s.calls.rotator.heap e).state =
        ⟨r.protocolFrom, r.protocolTo, r.level, r.duration.toNat⟩ ∧
    ∃ request ∈ judge.requests.handles, request.validation = n ∧
      request.protocolFrom = r.protocolFrom ∧ request.protocolTo = r.protocolTo ∧
      request.outcome = some (.ok r) ∧ judge.visitsOf request.id ≠ [] ∧
      r.level = Judge.Verdicts.verdict toLocaleLowerCase
        (Judge.LevelDetection.createAddrRegex (dns request.request) localIp)
        (Judge.LevelDetection.createAddrRegex (dns request.request)
          (Judge.Verdicts.proxyIp r.protocolFrom v.ip v.port))
        (judge.visitsOf request.id) := by
  have hfilled : Filled options (Found judge) s := by
    refine (machine env fetchSize).run_invariant_on
      (fun _ _ _ hs ha hnext => hs.step ha hnext) (.start hidle hstored) ?_ h
    rintro b hb tables rfl
    exact htables tables hb
  obtain ⟨select, hselect, hmatches, data, results, r, ⟨v, hv, hip, hport, hfound⟩, hresults, hr,
    hok, hpos, hsameIp, hsamePort, hstate⟩ :=
    hfilled.suitable (sound_run hidle h) hstep hin hnew
  rw [hfound] at hresults
  cases hresults
  obtain ⟨n, hn⟩ := List.mem_iff_getElem?.mp hv
  obtain ⟨request, hrequest, hvalidation, hpair, houtcome, -, hlevel⟩ :=
    (Judge.Verdicts.judged_run hids hjudge).result hn hr
  obtain ⟨hfrom, hto⟩ := Prod.mk.inj hpair
  refine ⟨select, hselect, hmatches, n, v, hn, hsameIp.trans hip, hsamePort.trans hport, r, hr,
    hok, hstate, request, hrequest, hvalidation, hfrom, hto, houtcome, ?_, hlevel⟩
  rw [hlevel] at hpos
  exact Judge.Verdicts.verdict_pos_iff.mp hpos

end

/-- The proxy that names itself to the judge, as `do` stores it. -/
def judgedData : ProxyData where
  ip := "10.0.0.3".toList
  port := 8080
  results := (Judge.Verdicts.exampleJudge.requests.validations[0]?).map (·.results)

theorem found_judged : Found Judge.Verdicts.exampleJudge judgedData :=
  ⟨_, List.mem_cons_self, rfl, rfl, rfl⟩

def storeRun : List StoreAction :=
  [.store judgedData, .go 0, .go 0, .go 0, .saveState 0 0, .saveState 0 0, .go 0]

def judgedStore : Store := ((Store.machine {}).run {} storeRun).getD {}

def judgedStart : Pool where
  tables := { toDatabase := judgedStore.db }
  calls := NextCalls.empty

theorem stored_judged : Stored {} (Found Judge.Verdicts.exampleJudge) judgedStart.tables := by
  have h : (Store.machine {}).run {} storeRun = some judgedStore := rfl
  have hcalls : ∀ c ∈ judgedStore.calls, c.data = judgedData := by decide +kernel
  refine ⟨{}, _, judgedStore, Database.wf_empty, rfl, rfl, h, ?_, rfl, rfl⟩
  intro c hc
  rw [hcalls c hc]
  exact found_judged

/-- The proxy is fetched, checked and two seconds old. -/
def judgedRun : List Action :=
  [.doEnqueue {}, .callGo 0 false, .callGo 0 false, .callGo 0 false, .checked 0 true,
    .calls (.rotator (.tick 2000))]

theorem handed_out_visited_via :
    ∃ select, (after (after judgedStart judgedRun) [.calls (.next [] 0)]).calls.asked[0]? =
        some select ∧
      selectorMatches (parseProxyHeader select)
        ((after judgedStart judgedRun).calls.rotator.heap 0).state = true ∧
    ∃ n v, Judge.Verdicts.exampleJudge.requests.validations[n]? = some v ∧
      ((after judgedStart judgedRun).calls.rotator.heap 0).ip = v.host ∧
      ((after judgedStart judgedRun).calls.rotator.heap 0).port = v.port ∧
    ∃ r ∈ v.results.variants, r.error = none ∧
      ((after judgedStart judgedRun).calls.rotator.heap 0).state =
        ⟨r.protocolFrom, r.protocolTo, r.level, r.duration.toNat⟩ ∧
    ∃ request ∈ Judge.Verdicts.exampleJudge.requests.handles, request.validation = n ∧
      request.protocolFrom = r.protocolFrom ∧ request.protocolTo = r.protocolTo ∧
      request.outcome = some (.ok r) ∧
      Judge.Verdicts.exampleJudge.visitsOf request.id ≠ [] ∧
      r.level = Judge.Verdicts.verdict id
        (Judge.LevelDetection.createAddrRegex Judge.Verdicts.noLookups "10.0.0.1".toList)
        (Judge.LevelDetection.createAddrRegex Judge.Verdicts.noLookups
          (Judge.Verdicts.proxyIp r.protocolFrom v.ip v.port))
        (Judge.Verdicts.exampleJudge.visitsOf request.id) := by
  have htables : ∀ tables, Action.tables tables ∈ judgedRun →
      Stored {} (Found Judge.Verdicts.exampleJudge) tables := by
    intro tables htables
    simp [judgedRun] at htables
  have hjudge : (Judge.Verdicts.machine Judge.Requests.letters id
      (fun _ => Judge.Verdicts.noLookups) "10.0.0.1".toList).run {}
      Judge.Verdicts.exampleActions = some Judge.Verdicts.exampleJudge := rfl
  exact @handed_out_visited {} NextCalls.exampleEnv 20
    (after judgedStart judgedRun) (after (after judgedStart judgedRun) [.calls (.next [] 0)])
    _ Judge.Requests.letters_initial.injective _ _ _ _ _ hjudge
    judgedStart ⟨rfl, rfl, rfl, rfl, rfl, rfl⟩ stored_judged judgedRun htables rfl
    (.calls (.next [] 0)) rfl 0 0 (by decide +kernel) (by decide +kernel)

end ProxyBroker.Proxy.Candidates
