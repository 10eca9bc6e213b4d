/-
ProxyBroker.Proxy.SelectedResultsTheorems — what the rotator finds of an
address is what the judge has last said of it (`ProxyValidator.store` and
`ProxyRotator.fetch` on the same tables).

* `stored_chain` — behind calls of `store` made one behind the other the
  address joins the states of the last one that has returned;
* `meets_rowOf` — the row of a result meets a selector exactly if the
  result suits it and the address is neither failing, blocked nor to be
  deleted;
* `fetched_run` — the rows of the address in a result set, for every run,
  every selector and every content of the usage records.

A result of level 0 is stored as enabled and never found.
-/
import ProxyBroker.Proxy.LatestVerdictTheorems
import ProxyBroker.Proxy.ProxyFetchTheorems

namespace ProxyBroker.Proxy

open Lib Server

/-! ## The last validation -/

namespace Storage.Store

/-- The call has returned, and was not skipped. -/
def isDone (c : StoreCall) : Bool :=
  match c.stage with
  | .done _ => true
  | _ => false

/-- The last call that has written. -/
def lastDone (calls : List StoreCall) : Option StoreCall := (calls.filter isDone).getLast?

/-- The address joins what its last validation has found. -/
structure JoinsLast (ip : Text) (port : Nat) (calls : List StoreCall) (db : Database) : Prop where
  consistent : Consistent db ip port
  last : ∀ c, lastDone calls = some c → ∃ a, db.findAddr ip port = some a ∧
    a.lastCheckedAt = some c.now ∧ (db.joined a).Perm (c.built a)

theorem stored_chain (ip : Text) (port : Nat) : Chain ip port (JoinsLast ip port) where
  wf _ _ h := h.consistent.wf
  ended calls db0 c addr db h hfor hdone hended := by
    obtain ⟨hip, hport, -⟩ := hfor
    subst hip hport
    have hone : [c].filter isDone = [c] := by simp [isDone, hdone]
    refine ⟨hended.consistent h.consistent, ?_⟩
    intro d hd
    rw [lastDone, List.filter_append, hone, List.getLast?_concat, Option.some.injEq] at hd
    subst hd
    exact ⟨addr, hended.found, hended.lastCheckedAt, hended.joined_perm h.consistent⟩
  skipped calls db c h _ hskipped := by
    have hnone : [c].filter isDone = [] := by simp [isDone, hskipped]
    refine ⟨h.consistent, ?_⟩
    intro d hd
    rw [lastDone, List.filter_append, hnone, List.append_nil] at hd
    exact h.last d hd

end Storage.Store

namespace ProxyFetch

open Storage Storage.Store

/-! ## The rows of an address -/

/-- The usage record of an address, for the protocol it is asked in. -/
def usageOf (rotates : List RotateRow) (a : Storage.IpAddr) (protocol : ProtocolType) :
    Option RotateRow :=
  rotates.find? (fun r => r.addrId = a.id && r.protocolSrc = protocol)

/-- The row of a result in the joined tables. -/
def rowOf (rotates : List RotateRow) (a : Storage.IpAddr) (r : JudgeResult) : Row where
  ip := a
  state := (buildState a r).1
  rotate := usageOf rotates a r.protocolFrom

/-- What a selector asks of a result of the judge. -/
structure Suits (select : WorkLoad) (r : JudgeResult) : Prop where
  error : r.error = none
  judged : 0 < r.level
  speedLimit : ∀ limit ∈ select.speedLimit, 0 < limit → r.duration < limit
  protocol : r.protocolTo = protocolOf select

theorem suits_iff {select : WorkLoad} {r : JudgeResult} :
    Suits select r ↔ r.error = none ∧ 0 < r.level ∧
      (∀ limit ∈ select.speedLimit, 0 < limit → r.duration < limit) ∧
      r.protocolTo = protocolOf select := by
  constructor
  · intro h
    exact ⟨h.error, h.judged, h.speedLimit, h.protocol⟩
  · rintro ⟨herror, hjudged, hspeed, hprotocol⟩
    exact ⟨herror, hjudged, hspeed, hprotocol⟩

instance (select : WorkLoad) : DecidablePred (Suits select) := fun _ =>
  decidable_of_iff _ suits_iff.symm

section

variable {rotates : List RotateRow} {select : WorkLoad} {a : Storage.IpAddr} {r : JudgeResult}
variable {db : Database}

/-- A result with a level is stored as enabled exactly if it is no error. -/
theorem enables_of_judged (hjudged : 0 < r.level) : enables r = true ↔ r.error = none := by
  have hlevel : -1 < r.level := by omega
  simp [enables, JudgeResult.hasError, hlevel]

theorem meets_rowOf (hlevel : asksLevel select = false) :
    Meets select (rowOf rotates a r) ↔ (a.blocked = false ∧ a.toDelete = false) ∧
      Suits select r ∧ notFailing (usageOf rotates a r.protocolFrom) = true := by
  constructor
  · intro h
    exact ⟨⟨h.free, h.kept⟩,
      ⟨(enables_of_judged h.judged).mp h.enabled, h.judged, h.speedLimit, h.protocol⟩, h.working⟩
  · rintro ⟨⟨hfree, hkept⟩, hsuits, hworking⟩
    refine ⟨(enables_of_judged hsuits.judged).mpr hsuits.error, hsuits.judged, hkept, hfree,
      hworking, ?_, hsuits.speedLimit, hsuits.protocol⟩
    intro level hl hpos
    rw [asksLevel, Option.mem_def.mp hl] at hlevel
    exact absurd hpos (by simpa using hlevel)

/-- The table has one row of a key. -/
theorem filter_key_perm (hwf : db.Wf) {ip : Text} {port : Nat}
    (hfind : db.findAddr ip port = some a) :
    (db.addrs.filter (fun b => b.key = (ip, port))).Perm [a] := by
  obtain ⟨ha, hkey⟩ := (Database.findAddr_eq_some_iff hwf).mp hfind
  refine (List.perm_ext_iff_of_nodup ?_ (List.nodup_singleton a)).mpr ?_
  · exact (List.Nodup.of_map _ hwf.key_nodup).filter _
  · intro b
    rw [List.mem_filter, decide_eq_true_eq, List.mem_singleton]
    constructor
    · rintro ⟨hb, hb'⟩
      exact List.inj_on_of_nodup_map hwf.key_nodup hb ha (hb'.trans hkey.symm)
    · rintro rfl
      exact ⟨ha, hkey⟩

/-- Its rows in the joined tables, by the states it joins. -/
theorem joinedRows_key_perm (hwf : db.Wf) {ip : Text} {port : Nat}
    (hfind : db.findAddr ip port = some a) :
    (({ toDatabase := db, rotates := rotates } : Tables).joinedRows.filter
        (fun row => row.ip.key = (ip, port))).Perm
      ((db.joined a).map (fun state => ⟨a, state, usageOf rotates a state.protocolSrc⟩)) := by
  have hsplit : ∀ addrs : List Storage.IpAddr,
      (addrs.flatMap (fun b => (db.joined b).map (fun state =>
          (⟨b, state, usageOf rotates b state.protocolSrc⟩ : Row)))).filter
            (fun row => row.ip.key = (ip, port)) =
        (addrs.filter (fun b => b.key = (ip, port))).flatMap (fun b =>
          (db.joined b).map (fun state => ⟨b, state, usageOf rotates b state.protocolSrc⟩)) := by
    intro addrs
    induction addrs with
    | nil => rfl
    | cons b addrs ih =>
        by_cases hb : b.key = (ip, port) <;> simp [hb, ih, List.filter_map, Function.comp_def]
  have hone := (filter_key_perm hwf hfind).flatMap_right (fun b =>
    (db.joined b).map (fun state => (⟨b, state, usageOf rotates b state.protocolSrc⟩ : Row)))
  rw [← hsplit db.addrs, List.flatMap_singleton] at hone
  exact hone

/-- What is found of an address with these results: those that suit, each
with its row, if the address may be handed out. -/
def foundOf (rotates : List RotateRow) (select : WorkLoad) (a : Storage.IpAddr)
    (results : JudgeResults) : List Row :=
  if asksLevel select = true ∨ a.blocked = true ∨ a.toDelete = true then []
  else (results.variants.filter (fun r => Suits select r ∧
    notFailing (usageOf rotates a r.protocolFrom) = true)).map (rowOf rotates a)

theorem filter_meets_perm (hcountry : anywhere select = true) (offset : Nat)
    (results : JudgeResults) :
    ((results.variants.map (rowOf rotates a)).filter (selectOf select offset).query.accepts) =
      foundOf rotates select a results := by
  unfold foundOf
  cases hlevel : asksLevel select with
  | true =>
      rw [if_pos (.inl rfl), List.filter_eq_nil_iff]
      intro row _
      have hno : (selectOf select offset).query.accepts row = false :=
        queryOf_accepts_level hlevel row
      simp [hno]
  | false =>
      have haccepts : ∀ r, (selectOf select offset).query.accepts (rowOf rotates a r) =
          decide ((a.blocked = false ∧ a.toDelete = false) ∧ Suits select r ∧
            notFailing (usageOf rotates a r.protocolFrom) = true) := by
        intro r
        rw [Bool.eq_iff_iff, decide_eq_true_eq, ← meets_rowOf hlevel]
        exact queryOf_accepts hcountry hlevel _
      rw [List.filter_map]
      split
      · rename_i hout
        have hno : ¬ (a.blocked = false ∧ a.toDelete = false) := by
          rintro ⟨hfree, hkept⟩
          simp [hfree, hkept] at hout
        simp [Function.comp_def, haccepts, hno]
      · rename_i hin
        have hyes : a.blocked = false ∧ a.toDelete = false := by simpa using hin
        simp only [Function.comp_def, haccepts, hyes, and_self, true_and]

theorem map_rowOf (results : JudgeResults) :
    (builtStates a results).map (fun state =>
        (⟨a, state, usageOf rotates a state.protocolSrc⟩ : Row)) =
      results.getVariants.map (rowOf rotates a) := by
  rw [builtStates, List.map_map]
  rfl

/-- **What is found of an address**, behind any validations of it that are
made one behind the other on a consistent database, none of whose calls
to it is rejected: with the usage records as they are, the rows of a
result set that are of the address are those of the suitable results of
its last validation, and none if the selector asks for a level. -/
theorem fetched_run {options : ValidatorOptions} {ip : Text} {port : Nat} {s t : Store}
    {as : List StoreAction} (hdb : Consistent s.db ip port) (hidle : s.calls = [])
    (has : (machine options).Along (Sequential ip port) s as)
    (h : (machine options).run s as = some t) (hover : ∀ c ∈ t.calls, isOver c.stage = true)
    {c : StoreCall} (hlast : lastDone t.calls = some c) {results : JudgeResults}
    (hresults : c.data.results = some results) (rotates : List RotateRow) {select : WorkLoad}
    (hcountry : anywhere select = true) (offset : Nat) :
    ∃ a, t.db.findAddr ip port = some a ∧ a.lastCheckedAt = some c.now ∧
      ((({ toDatabase := t.db, rotates := rotates } : Tables).resultSet
          (selectOf select offset)).filter (fun row => row.ip.key = (ip, port))).Perm
        (foundOf rotates select a results) := by
  have hjoins : JoinsLast ip port t.calls t.db := by
    refine (stored_chain ip port).run hidle ⟨hdb, ?_⟩ has h hover
    intro d hd
    cases hd
  obtain ⟨a, hfind, hchecked, hjoined⟩ := hjoins.last c hlast
  refine ⟨a, hfind, hchecked, ?_⟩
  have hbuilt : c.built a = builtStates a results := by
    rw [StoreCall.built, hresults]
    rfl
  rw [hbuilt] at hjoined
  have hvariants : results.getVariants.Perm results.variants := List.perm_insertionSort _ _
  have hrows : (({ toDatabase := t.db, rotates := rotates } : Tables).joinedRows.filter
      (fun row => row.ip.key = (ip, port))).Perm (results.variants.map (rowOf rotates a)) := by
    refine (joinedRows_key_perm hjoins.consistent.wf hfind).trans ?_
    refine (hjoined.map _).trans ?_
    rw [map_rowOf]
    exact hvariants.map _
  refine ((resultSet_perm _ _).filter _).trans ?_
  rw [List.filter_filter, ← filter_meets_perm hcountry offset]
  refine List.Perm.trans ?_ (hrows.filter _)
  rw [List.filter_filter]
  refine List.Perm.of_eq (List.filter_congr ?_)
  intro row _
  exact Bool.and_comm _ _

end

/-- A failure, and behind it a success. -/
def brokenThenWorking : Store :=
  ((machine {}).run known (.store (knownData broken) :: alone 0 ++ [.tick 3] ++
    (.store (knownData working) :: alone 1))).getD {}

theorem fetched_run_working :
    ∃ a, brokenThenWorking.db.findAddr ['x'] 80 = some a ∧ a.lastCheckedAt = some 8 ∧
      ((({ toDatabase := brokenThenWorking.db } : Tables).resultSet (selectOf {} 0)).filter
          (fun row => row.ip.key = (['x'], 80))).Perm (foundOf [] {} a working) := by
  have h : (machine {}).run known (.store (knownData broken) :: alone 0 ++ [.tick 3] ++
      (.store (knownData working) :: alone 1)) = some brokenThenWorking := by decide
  have hlast : (lastDone brokenThenWorking.calls).map (fun c => (c.data, c.now)) =
      some (knownData working, 8) := by decide
  obtain ⟨c, hc, hpair⟩ := Option.map_eq_some_iff.mp hlast
  obtain ⟨hdata, hnow⟩ := Prod.mk.inj hpair
  have hresults : c.data.results = some working := by rw [hdata]; rfl
  rw [← hnow]
  exact fetched_run known_consistent rfl (by decide) h (by decide) hc hresults [] rfl 0

end ProxyFetch

end ProxyBroker.Proxy
