/-
ProxyBroker.Proxy.StoreSourceTheorems — whose verdict a stored state is,
for any number of `store` calls, in any order of their operations and with
any of them rejected.

`FromData`: the state was built from a result of the data, for an entity
with its ip and port. `Next.keeps_owner` and `Next.keeps_source` say what
one operation keeps, `Sourced.step` puts them together, and `joined_run`
is what an address joins in any run: results of calls for just this
address. Calls may take each other's `validation_id`
(`StoreRaceTheorems`), but never each other's proxy.
-/
import ProxyBroker.Proxy.StoreRaceTheorems

namespace ProxyBroker.Proxy.Storage.Store

open Lib Server

/-- The states a call has still to save. -/
def todoOf : Stage → List IpAddrState
  | .storing _ _ todo | .failed todo => todo
  | _ => []

/-- The state is that of a result of the data, and carries the id of a row
with its ip and port. -/
def FromData (db : Database) (data : ProxyData) (st : IpAddrState) : Prop :=
  ∃ results r a, data.results = some results ∧ r ∈ results.variants ∧ db.Knows a ∧
    a.id ≠ 0 ∧ a.key = (data.ip, data.port) ∧ st = (buildState a r).1

section

variable {db db' : Database} {c : StoreCall} {rejected : Bool} {stage : Stage}
variable {state : Option IpAddrState} {ip : Text} {port : Nat}

theorem FromData.mono {data : ProxyData} {st : IpAddrState} (h : FromData db data st)
    (hknows : ∀ a, db.Knows a → db'.Knows a) : FromData db' data st := by
  obtain ⟨results, r, a, hresults, hr, ha, hrest⟩ := h
  exact ⟨results, r, a, hresults, hr, hknows a ha, hrest⟩

theorem mem_todoOf_promiseAll {addr : IpAddr} {enabled : Bool} {now : Nat}
    {todo : List IpAddrState} {st : IpAddrState}
    (h : st ∈ todoOf (promiseAll addr enabled now todo)) : st ∈ todo := by
  cases todo with
  | nil => cases h
  | cons st' todo => exact h

/-- The states of an entity the call owns. -/
theorem Owns.fromData {addr : IpAddr} {results : JudgeResults}
    (hown : Owns db c.data.ip c.data.port c) (hfrom : entity c.stage = some (addr, true))
    (hresults : c.data.results = some results) {st : IpAddrState}
    (hst : st ∈ todoOf (Store.storing addr results c.now)) : FromData db c.data st := by
  obtain ⟨hkey, hknows, hid⟩ := hown.entity_ok addr true hfrom
  rw [storing_eq] at hst
  obtain ⟨r, hr, rfl⟩ := List.mem_map.mp (mem_todoOf_promiseAll hst)
  have hvariant : r ∈ results.variants := (List.perm_insertionSort _ _).mem_iff.mp hr
  exact ⟨results, r, addr, hresults, hvariant, hknows, hid rfl, hkey, rfl⟩

/-- **The entity of a call** stays one of its address. -/
theorem Next.keeps_owner (hwf : db.Wf) (hown : Owns db ip port c)
    (h : Next db c rejected db' stage state) :
    db'.Wf ∧ (∀ a, db.Knows a → db'.Knows a) ∧ Owns db' ip port { c with stage := stage } := by
  have hsame : Owns db ip port { c with stage := stage } → db'.addrs = db.addrs →
      db'.nextId = db.nextId →
      db'.Wf ∧ (∀ a, db.Knows a → db'.Knows a) ∧ Owns db' ip port { c with stage := stage } := by
    intro hown' haddrs hnext
    have hknows : ∀ a, db.Knows a → db'.Knows a := fun _ h => h.congr haddrs
    exact ⟨hwf.congr haddrs hnext, hknows, hown'.mono hknows⟩
  cases h with
  | found h => exact hsame (@owns_entered { db := db } c ip port hwf hown) rfl rfl
  | saved addr db' addr' h hsave =>
      have hfrom : entity c.stage = some (addr, false) := by rw [h]; rfl
      have hsaved := Database.saveAddr_saved hwf (hown.entity_ok _ _ hfrom).2.1 hsave
      exact ⟨hsaved.wf, hsaved.knows, hown.saved hfrom hsaved (entity_saved _ _)⟩
  | located addr results h hresults =>
      have hfrom : entity c.stage = some (addr, true) := by rw [h]; rfl
      rcases located_cases addr c.data results c.now with heq | ⟨loc, heq⟩
      · rw [heq] at hsame ⊢
        exact hsame (hown.storing hfrom results) rfl rfl
      · rw [heq] at hsame ⊢
        exact hsame (hown.goOn hfrom rfl rfl rfl) rfl rfl
  | savedLoc addr loc results h hresults =>
      have hfrom : entity c.stage = some (addr, true) := by rw [h]; rfl
      exact hsame (hown.storing hfrom results) rfl rfl
  | rejectedLoc addr loc results h hresults =>
      have hfrom : entity c.stage = some (addr, true) := by rw [h]; rfl
      exact hsame (hown.storing hfrom results) rfl rfl
  | stored addr enabled todo k st h hk =>
      have hfrom : entity c.stage = some (addr, true) := by rw [h]; rfl
      obtain ⟨a, ha, hid, hkey⟩ := entity_promiseAll addr enabled c.now (todo.eraseIdx k)
      exact hsame (hown.goOn hfrom ha hid hkey) rfl rfl
  | counted addr db' addr' h hsave =>
      have hfrom : entity c.stage = some (addr, true) := by rw [h]; rfl
      have hsaved := Database.saveAddr_saved hwf (hown.entity_ok _ _ hfrom).2.1 hsave
      exact ⟨hsaved.wf, hsaved.knows, hown.saved hfrom hsaved rfl⟩
  | _ => exact hsame (hown.over rfl) rfl rfl

theorem todoOf_saved (addr : IpAddr) (data : ProxyData) : todoOf (saved addr data) = [] := by
  unfold saved
  split <;> rfl

/-- No operation but the save of a state writes one. -/
theorem Next.states_eq (hwf : db.Wf) (hown : Owns db ip port c)
    (h : Next db c rejected db' stage state) : db'.states = db.states ++ state.toList := by
  cases h with
  | saved addr db' addr' h hsave =>
      have hfrom : entity c.stage = some (addr, false) := by rw [h]; rfl
      have hsaved := Database.saveAddr_saved hwf (hown.entity_ok _ _ hfrom).2.1 hsave
      simpa using hsaved.states_eq
  | counted addr db' addr' h hsave =>
      have hfrom : entity c.stage = some (addr, true) := by rw [h]; rfl
      have hsaved := Database.saveAddr_saved hwf (hown.entity_ok _ _ hfrom).2.1 hsave
      simpa using hsaved.states_eq
  | stored addr enabled todo k st h hk => rfl
  | storedLate todo k st h hk => rfl
  | _ => exact (List.append_nil _).symm

/-- **The states of a call** stay states of its results: those it has
still to save, and the one it has saved. -/
theorem Next.keeps_source (hown : Owns db c.data.ip c.data.port c)
    (htodo : ∀ st ∈ todoOf c.stage, FromData db c.data st)
    (h : Next db c rejected db' stage state) {st : IpAddrState}
    (hst : st ∈ todoOf stage ∨ st ∈ state) : FromData db c.data st := by
  have herase : ∀ todo k, todoOf c.stage = todo → st ∈ todo.eraseIdx k → FromData db c.data st := by
    rintro todo k rfl hmem
    exact htodo st ((List.eraseIdx_sublist _ k).subset hmem)
  have hsaved : ∀ (todo : List IpAddrState) (k : Nat) (st' : IpAddrState),
      todoOf c.stage = todo → todo[k]? = some st' → st ∈ some st' → FromData db c.data st := by
    rintro todo k st' rfl hk hmem
    cases hmem
    exact htodo _ (List.mem_of_getElem? hk)
  cases h with
  | saved addr db' addr' h hsave =>
      rw [todoOf_saved] at hst
      rcases hst with hst | hst <;> cases hst
  | located addr results h hresults =>
      have hfrom : entity c.stage = some (addr, true) := by rw [h]; rfl
      rcases located_cases addr c.data results c.now with heq | ⟨loc, heq⟩
      · rw [heq] at hst
        rcases hst with hst | hst
        · exact hown.fromData hfrom hresults hst
        · cases hst
      · rw [heq] at hst
        rcases hst with hst | hst <;> cases hst
  | savedLoc addr loc results h hresults =>
      have hfrom : entity c.stage = some (addr, true) := by rw [h]; rfl
      rcases hst with hst | hst
      · exact hown.fromData hfrom hresults hst
      · cases hst
  | rejectedLoc addr loc results h hresults =>
      have hfrom : entity c.stage = some (addr, true) := by rw [h]; rfl
      rcases hst with hst | hst
      · exact hown.fromData hfrom hresults hst
      · cases hst
  | stored addr enabled todo k st' h hk =>
      rcases hst with hst | hst
      · exact herase todo k (by rw [h]; rfl) (mem_todoOf_promiseAll hst)
      · exact hsaved todo k st' (by rw [h]; rfl) hk hst
  | storedLate todo k st' h hk =>
      rcases hst with hst | hst
      · exact herase todo k (by rw [h]; rfl) hst
      · exact hsaved todo k st' (by rw [h]; rfl) hk hst
  | rejectedState addr enabled todo k st' h hk =>
      rcases hst with hst | hst
      · exact herase todo k (by rw [h]; rfl) hst
      · cases hst
  | rejectedLate todo k st' h hk =>
      rcases hst with hst | hst
      · exact herase todo k (by rw [h]; rfl) hst
      · cases hst
  | _ => rcases hst with hst | hst <;> cases hst

end

/-! ## Runs -/

/-- Every state is one of a call for its address. -/
structure Sourced (s : Store) : Prop where
  wf : s.db.Wf
  owns : ∀ c ∈ s.calls, Owns s.db c.data.ip c.data.port c
  todo : ∀ c ∈ s.calls, ∀ st ∈ todoOf c.stage, FromData s.db c.data st
  states : ∀ st ∈ s.db.states, ∃ c ∈ s.calls, FromData s.db c.data st

section

variable {options : ValidatorOptions} {s s' t : Store} {as : List StoreAction}

theorem Sourced.call (h : Sourced s) (data : ProxyData) {stage : Stage}
    (hentity : entity stage = none) (htodo : todoOf stage = []) : Sourced (s.call data stage) := by
  refine ⟨h.wf, ?_, ?_, ?_⟩
  · intro c hc
    rcases List.mem_append.mp hc with hold | hnew
    · exact h.owns c hold
    · rw [List.mem_singleton.mp hnew]
      exact ⟨rfl, rfl, fun a b hab => by simp [hentity] at hab⟩
  · intro c hc st hst
    rcases List.mem_append.mp hc with hold | hnew
    · exact h.todo c hold st hst
    · rw [List.mem_singleton.mp hnew, htodo] at hst
      cases hst
  · intro st hst
    obtain ⟨c, hc, hfrom⟩ := h.states st hst
    exact ⟨c, List.mem_append_left _ hc, hfrom⟩

theorem Sourced.next {i : Nat} {c : StoreCall} {rejected : Bool} {db : Database} {stage : Stage}
    {state : Option IpAddrState} (h : Sourced s) (hc : s.calls[i]? = some c)
    (hnext : Next s.db c rejected db stage state) : Sourced (s.next i c db stage state) := by
  have hmem := List.mem_of_getElem? hc
  have hi := (List.getElem?_eq_some_iff.mp hc).1
  have hown := h.owns c hmem
  obtain ⟨hwf, hknows, hown'⟩ := hnext.keeps_owner h.wf hown
  have hfrom : ∀ st, st ∈ todoOf stage ∨ st ∈ state → FromData db c.data st := fun st hst =>
    (hnext.keeps_source hown (h.todo c hmem) hst).mono hknows
  have hself : { c with stage := stage } ∈ s.calls.set i { c with stage := stage } :=
    List.mem_set hi _
  refine ⟨hwf, ?_, ?_, ?_⟩
  · intro d hd
    rcases List.mem_or_eq_of_mem_set hd with hold | rfl
    · exact (h.owns d hold).mono hknows
    · exact hown'
  · intro d hd st hst
    rcases List.mem_or_eq_of_mem_set hd with hold | rfl
    · exact (h.todo d hold st hst).mono hknows
    · exact hfrom st (.inl hst)
  · intro st hst
    rw [Store.next, hnext.states_eq h.wf hown] at hst
    rcases List.mem_append.mp hst with hold | hnew
    · obtain ⟨d, hd, hd'⟩ := h.states st hold
      obtain ⟨j, hj⟩ := List.mem_iff_getElem?.mp hd
      by_cases hij : i = j
      · subst hij
        rw [hc] at hj
        cases hj
        exact ⟨_, hself, hd'.mono hknows⟩
      · refine ⟨d, List.mem_iff_getElem?.mpr ⟨j, ?_⟩, hd'.mono hknows⟩
        rw [Store.next, List.getElem?_set_ne hij]
        exact hj
    · exact ⟨_, hself, hfrom st (.inr (by simpa using hnew))⟩

/-- **Step lemma.** -/
theorem Sourced.step {a : StoreAction} (h : Sourced s) (hstep : step options s a = some s') :
    Sourced s' := by
  cases ha : a.calls with
  | false =>
      rcases step_cases ha hstep with ⟨ms, -, rfl⟩ | ⟨i, c, db, stage, state, -, hc, hnext, rfl⟩
      · exact ⟨h.wf, h.owns, h.todo, h.states⟩
      · exact h.next hc hnext
  | true =>
      cases a with
      | store data =>
          cases hstep
          exact h.call data rfl rfl
      | validated data results =>
          cases hstep
          split
          · exact h.call _ rfl rfl
          · exact h.call _ rfl rfl
      | _ => cases ha

theorem sourced_run (hwf : s.db.Wf) (hcalls : s.calls = []) (hstates : s.db.states = [])
    (h : (machine options).run s as = some t) : Sourced t := by
  have hs : Sourced s := ⟨hwf, by simp [hcalls], by simp [hcalls], by simp [hstates]⟩
  exact (machine options).run_invariant (fun _ _ _ hu hstep => hu.step hstep) hs h

theorem Sourced.joined (h : Sourced t) {a : IpAddr} (ha : a ∈ t.db.addrs) {st : IpAddrState}
    (hst : st ∈ t.db.joined a) :
    ∃ c ∈ t.calls, (c.data.ip, c.data.port) = a.key ∧ ∃ results, c.data.results = some results ∧
      ∃ r ∈ results.variants, st = (buildState a r).1 := by
  obtain ⟨hin, hjoins⟩ := List.mem_filter.mp hst
  simp only [Bool.and_eq_true, decide_eq_true_eq] at hjoins
  obtain ⟨c, hc, results, r, b, hresults, hr, hknows, hid, hkey, rfl⟩ := h.states st hin
  obtain ⟨d, hd, hdid, hdkey⟩ := hknows hid
  have hda : d = a := List.inj_on_of_nodup_map h.wf.id_nodup hd ha (hdid.trans hjoins.1)
  subst hda
  refine ⟨c, hc, hkey.symm.trans hdkey.symm, results, hresults, r, hr, ?_⟩
  have hfields : b.id = d.id ∧ b.validationId = d.validationId := hjoins
  simp [buildState, hfields.1, hfields.2]

/-- **What an address joins**, in any run from tables without states: only
states of calls for its ip and port, each that of one of the results of
the call. -/
theorem joined_run (hwf : s.db.Wf) (hcalls : s.calls = []) (hstates : s.db.states = [])
    (h : (machine options).run s as = some t) {a : IpAddr} (ha : a ∈ t.db.addrs)
    {st : IpAddrState} (hst : st ∈ t.db.joined a) :
    ∃ c ∈ t.calls, (c.data.ip, c.data.port) = a.key ∧ ∃ results, c.data.results = some results ∧
      ∃ r ∈ results.variants, st = (buildState a r).1 :=
  (sourced_run hwf hcalls hstates h).joined ha hst

end

/-- Two calls whose operations cross. -/
def twoProxies : Store :=
  ((machine {}).run {} [.store (knownData working), .store ⟨['y'], 80, some broken⟩, .go 0, .go 1,
    .go 1, .go 0, .go 0, .go 1, .saveState 1 0, .saveState 0 0]).getD {}

/-- The address that is inserted first, and its state. -/
def firstAddr : IpAddr :=
  { id := 1, ip := ['y'], port := 80, validationId := 1, lastCheckedAt := some 0 }

def firstState : IpAddrState where
  enabled := false
  protocolSrc := .http
  protocolDest := .http
  addrId := 1
  validationId := 1
  level := -2
  start := 0
  stop := 0
  duration := -1
  errorCode := some ['e']
  errorMessage := some ['e']
  log := []

theorem joined_run_two :
    ∃ c ∈ twoProxies.calls, (c.data.ip, c.data.port) = firstAddr.key ∧
      ∃ results, c.data.results = some results ∧
        ∃ r ∈ results.variants, firstState = (buildState firstAddr r).1 := by
  have h : (machine {}).run {} [.store (knownData working), .store ⟨['y'], 80, some broken⟩, .go 0,
      .go 1, .go 1, .go 0, .go 0, .go 1, .saveState 1 0, .saveState 0 0] = some twoProxies := by
    decide
  exact joined_run Database.wf_empty rfl rfl h (by decide) (by decide)

end ProxyBroker.Proxy.Storage.Store
