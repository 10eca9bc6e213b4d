/-
ProxyBroker.Proxy.LatestVerdictTheorems — what the rotator and the recheck
see of an address behind a validation.

`Verdict`: the row carries the time of the validation, the states it joins
are enabled only if the validation had an enabled variant, so without one
the address is not selectable, and within `timeDistance` it is not picked
again.

`latestVerdict`: this holds behind every validation that `do` stores, in
any sequence of validations made one behind the other, from a database in
which no state is ahead of its address. One that is skipped
(`skipFailed`, and no variant without an error) changes nothing.
-/
import ProxyBroker.Proxy.StoreAloneTheorems

namespace ProxyBroker.Proxy.Storage.Store

open Lib Server

/-- What the database says of the address behind a validation at `time`. -/
structure Verdict (ip : Text) (port time : Nat) (results : JudgeResults) (db : Database) :
    Prop where
  row : ∃ a, db.findAddr ip port = some a ∧ a.lastCheckedAt = some time ∧
    ∀ st ∈ db.joined a, st.enabled = true → hasEnabled results = true
  selectable : hasEnabled results = false → ∀ p ∈ db.selectable, p.1.key ≠ (ip, port)
  recheck : ∀ now timeDistance limit, now ≤ time + timeDistance * 1000 →
    ∀ b ∈ db.recheck now timeDistance limit, b.key ≠ (ip, port)

section

variable {ip : Text} {port : Nat} {db0 db : Database} {a b : IpAddr} {c : StoreCall}

theorem selectable_mem {p : IpAddr × IpAddrState} (h : p ∈ db.selectable) :
    p.1 ∈ db.addrs ∧ p.2 ∈ db.joined p.1 ∧ p.2.enabled = true := by
  obtain ⟨b, hb, hp⟩ := List.mem_flatMap.mp h
  obtain ⟨st, hst, rfl⟩ := List.mem_map.mp hp
  obtain ⟨hjoined, hcond⟩ := List.mem_filter.mp hst
  simp only [Bool.and_eq_true] at hcond
  exact ⟨hb, hjoined, hcond.1.1.1⟩

theorem recheck_mem {now timeDistance limit : Nat} (h : b ∈ db.recheck now timeDistance limit) :
    b ∈ db.addrs ∧ ∀ t, b.lastCheckedAt = some t → t + timeDistance * 1000 < now := by
  obtain ⟨hb, hcond⟩ := List.mem_filter.mp (List.mem_of_mem_take h)
  refine ⟨hb, ?_⟩
  intro t ht
  simp only [ht, Bool.and_eq_true, decide_eq_true_eq] at hcond
  exact hcond.2

theorem built_enabled {st : IpAddrState} (h : st ∈ c.built a) (henabled : st.enabled = true) :
    ∃ results, c.data.results = some results ∧ hasEnabled results = true := by
  cases hresults : c.data.results with
  | none => simp [StoreCall.built, hresults] at h
  | some results =>
      simp only [StoreCall.built, hresults, Option.elim_some] at h
      obtain ⟨r, hr, rfl⟩ := List.mem_map.mp h
      exact ⟨results, rfl, List.any_eq_true.mpr ⟨r, hr, henabled⟩⟩

/-- **Call lemma**: a call that returns leaves its verdict. -/
theorem Ended.verdict {results : JudgeResults} (h0 : Consistent db0 c.data.ip c.data.port)
    (h : Ended db0 c a db) (hresults : c.data.results = some results) :
    Verdict c.data.ip c.data.port c.now results db := by
  have hjoined : ∀ st ∈ db.joined a, st.enabled = true → hasEnabled results = true := by
    intro st hst henabled
    obtain ⟨r, hr, hany⟩ := built_enabled ((h.joined_perm h0).mem_iff.mp hst) henabled
    rw [hresults] at hr
    cases hr
    exact hany
  have hunique : ∀ b ∈ db.addrs, b.key = (c.data.ip, c.data.port) → b = a := by
    intro b hb hkey
    have hfind := (Database.findAddr_eq_some_iff h.wf).mpr ⟨hb, hkey⟩
    rw [h.found] at hfind
    exact (Option.some.inj hfind).symm
  refine ⟨⟨a, h.found, h.lastCheckedAt, hjoined⟩, ?_, ?_⟩
  · intro hnone p hp hkey
    obtain ⟨hb, hst, henabled⟩ := selectable_mem hp
    rw [hunique p.1 hb hkey] at hst
    rw [hjoined p.2 hst henabled] at hnone
    cases hnone
  · intro now timeDistance limit hnow b hb hkey
    obtain ⟨hmem, hlater⟩ := recheck_mem hb
    have := hlater c.now (by rw [hunique b hmem hkey]; exact h.lastCheckedAt)
    omega

end

section

variable {options : ValidatorOptions} {ip : Text} {port : Nat} {s u t : Store}
variable {as bs : List StoreAction} {data : ProxyData} {results : JudgeResults}

/-- Nothing but time goes on when all calls are over. -/
theorem run_over (hover : ∀ c ∈ s.calls, isOver c.stage = true)
    (hbs : ∀ b ∈ bs, b.calls = false ∧ b.rejects = false)
    (h : (machine options).run s bs = some t) : t.db = s.db := by
  have hstep : ∀ v b v', (v.calls = s.calls ∧ v.db = s.db) → b.calls = false ∧ b.rejects = false →
      (machine options).step v b = some v' → v'.calls = s.calls ∧ v'.db = s.db := by
    intro v b v' hv hb h1
    rcases step_cases hb.1 h1 with ⟨ms, -, rfl⟩ | ⟨i, c, db, stage, state, -, hc, hnext, -⟩
    · exact hv
    · have hnot := hnext.not_over
      rw [hv.1] at hc
      rw [hover c (List.mem_of_getElem? hc)] at hnot
      cases hnot
  exact ((machine options).run_invariant_on hstep ⟨rfl, rfl⟩ hbs h).2

/-- **Latest verdict**: behind every validation of an address, made when
no other is under way, its verdict holds if it is stored, and nothing has
changed if it is skipped. -/
theorem latestVerdict (hdb : Consistent s.db ip port) (hidle : s.calls = [])
    (has : (machine options).Along (Sequential ip port) s as)
    (h : (machine options).run s as = some u) (hu : ∀ c ∈ u.calls, isOver c.stage = true)
    (hip : data.ip = ip) (hport : data.port = port)
    (hbs : ∀ b ∈ bs, b.calls = false ∧ b.rejects = false)
    (h' : (machine options).run u (.validated data results :: bs) = some t)
    (ht : ∀ c ∈ t.calls, isOver c.stage = true) :
    (ProxyValidator.stores options (hasSuccess results) = true →
        Verdict ip port u.clock results t.db) ∧
      (ProxyValidator.stores options (hasSuccess results) = false → t.db = u.db) := by
  have hcons := (consistent_chain ip port).run hidle hdb has h hu
  obtain ⟨u', h1, h2⟩ := (machine options).run_cons_eq_some.mp h'
  cases h1
  subst hip hport
  constructor
  · intro hstores
    have halone : Alone u.calls ⟨{ data with results := some results }, u.clock, .finding⟩ u.db
        (u.call { data with results := some results } .finding) := ⟨hu, .finding, rfl, rfl⟩
    rw [if_pos hstores] at h2
    obtain ⟨a, hended⟩ := halone.run hcons.wf hbs h2 ht
    exact hended.verdict hcons rfl
  · intro hskipped
    rw [if_neg (by simp [hskipped])] at h2
    refine run_over (s := u.call { data with results := some results } .skipped) ?_ hbs h2
    intro c hc
    rcases List.mem_append.mp hc with hc | hc
    · exact hu c hc
    · rw [List.mem_singleton.mp hc]
      rfl

end

/-- A known address. -/
def known : Store := { db := knownDb, clock := 5 }

theorem known_consistent : Consistent known.db ['x'] 80 := ⟨knownDb_wf, by decide, by decide⟩

/-- A success, and behind it a failure that is stored. -/
theorem latestVerdict_stored :
    Verdict ['x'] 80 8 broken
      (((machine { skipFailed := false }).run known
        (.store (knownData working) :: alone 0 ++ [.tick 3] ++
          (.validated (knownData working) broken :: alone 1))).getD {}).db := by
  have h : (machine { skipFailed := false }).run known
      (.store (knownData working) :: alone 0 ++ [.tick 3]) =
        some (((machine { skipFailed := false }).run known
          (.store (knownData working) :: alone 0 ++ [.tick 3])).getD {}) := by decide
  have h' : (machine { skipFailed := false }).run
      (((machine { skipFailed := false }).run known
        (.store (knownData working) :: alone 0 ++ [.tick 3])).getD {})
      (.validated (knownData working) broken :: alone 1) =
        some (((machine { skipFailed := false }).run known
          (.store (knownData working) :: alone 0 ++ [.tick 3] ++
            (.validated (knownData working) broken :: alone 1))).getD {}) := by decide
  exact (latestVerdict known_consistent rfl (by decide) h (by decide) rfl rfl (by decide) h'
    (by decide)).1 (by decide)

/-- Two overlapping calls: the first one puts its `validation_id` back. -/
def putBack : List StoreAction :=
  [.store (knownData working), .store (knownData working), .go 0, .go 0] ++ alone 1 ++
    [.go 0, .saveState 0 0, .go 0]

/-- The address is selectable all the same. -/
theorem not_verdict_of_selectable {ip : Text} {port time : Nat} {results : JudgeResults}
    {db : Database} (hnone : hasEnabled results = false)
    (h : db.selectable.any (fun p => p.1.key == (ip, port)) = true) :
    ¬ Verdict ip port time results db := by
  intro hv
  obtain ⟨p, hp, hkey⟩ := List.any_eq_true.mp h
  exact hv.selectable hnone p hp (by simpa using hkey)

/-- A failure that is skipped leaves the address selectable, and so does
one that is stored when the states of a lost validation are ahead. -/
theorem not_verdict_skipped_putBack :
    (∃ t, (machine {}).run known [.validated (knownData broken) broken] = some t ∧
        (∀ c ∈ t.calls, isOver c.stage = true) ∧ ¬ Verdict ['x'] 80 5 broken t.db) ∧
      (∃ u t, (machine { skipFailed := false }).run known putBack = some u ∧
        (machine { skipFailed := false }).run u (.validated (knownData broken) broken :: alone 2) =
          some t ∧ (∀ c ∈ t.calls, isOver c.stage = true) ∧ ¬ Verdict ['x'] 80 5 broken t.db) := by
  refine ⟨⟨_, rfl, by decide, not_verdict_of_selectable (by decide) (by decide)⟩,
    ⟨((machine { skipFailed := false }).run known putBack).getD {},
      ((machine { skipFailed := false }).run known
        (putBack ++ .validated (knownData broken) broken :: alone 2)).getD {},
      by decide, by decide, by decide, not_verdict_of_selectable (by decide) (by decide)⟩⟩

end ProxyBroker.Proxy.Storage.Store
