/-
ProxyBroker.Proxy.StoreAloneTheorems — one `store` call while no other is
under way.

`Within` says what the database is at each stage of the call, seen from
the database it found; `Within.next` keeps it over every operation that is
not rejected. `Ended` is what is left when the call returns: the row of
the address with the next `validation_id` and the counters of one more
verdict, and the states of the call.

`Consistent`: no state of an address carries a `validation_id` above the
address's own. A call that is alone keeps this (`Ended.consistent`), and
then the states the address joins are those of the call
(`Ended.joined_perm`).

`Alone.run` is the run lemma of one call behind others, `Chain.run` the
induction rule for calls made one behind the other.
-/
import Mathlib.Data.List.Perm.Basic
import ProxyBroker.Proxy.StoreTheorems

namespace ProxyBroker.Proxy.Storage

open Lib Server

namespace Store

/-- The id of an address that is stored, or will be. -/
def idOf (db : Database) (ip : Text) (port : Nat) : Nat :=
  (db.findAddr ip port).elim db.nextId (·.id)

/-- Behind the first save: `a` is the row, `written` the states saved
since. -/
structure Entered (db0 : Database) (data : ProxyData) (now : Nat) (a : IpAddr) (db : Database)
    (written : List IpAddrState) : Prop where
  wf : db.Wf
  found : db.findAddr data.ip data.port = some a
  entity : a = { entered db0 data now with id := idOf db0 data.ip data.port }
  id_ne : a.id ≠ 0
  id_lt : a.id < db.nextId
  next_le : db0.nextId ≤ db.nextId
  states : db.states = db0.states ++ written

/-- Behind the call. -/
structure Ended (db0 : Database) (c : StoreCall) (a : IpAddr) (db : Database) : Prop where
  wf : db.Wf
  found : db.findAddr c.data.ip c.data.port = some a
  id_eq : a.id = idOf db0 c.data.ip c.data.port
  validationId : a.validationId = (entered db0 c.data c.now).validationId
  lastCheckedAt : a.lastCheckedAt = some c.now
  streak : a.streak = c.after (entered db0 c.data c.now).streak
  id_lt : a.id < db.nextId
  next_le : db0.nextId ≤ db.nextId
  states : ∃ written, db.states = db0.states ++ written ∧ written.Perm (c.built a)

/-- The database while the only call under way, which has found `db0`, is
at its stage. -/
def Within (db0 : Database) (c : StoreCall) (db : Database) : Prop :=
  match c.stage with
  | .finding => db = db0
  | .saving addr => db = db0 ∧ addr = entered db0 c.data c.now
  | .locating addr | .savingLoc addr _ => Entered db0 c.data c.now addr db []
  | .storing addr enabled todo => ∃ a results written, c.data.results = some results ∧
      Entered db0 c.data c.now a db written ∧ SameButProtocols addr a ∧
      enabled = hasEnabled results ∧ (written ++ todo).Perm (builtStates a results)
  | .finalSaving addr => ∃ a results written, c.data.results = some results ∧
      Entered db0 c.data c.now a db written ∧ addr.id = a.id ∧ addr.key = a.key ∧
      addr.validationId = a.validationId ∧ addr.lastCheckedAt = a.lastCheckedAt ∧
      addr.streak = c.after a.streak ∧ written.Perm (builtStates a results)
  | .done addr => Ended db0 c addr db
  | .failed _ | .skipped => False

section

variable {db0 db db' : Database} {data : ProxyData} {now : Nat} {c : StoreCall}
variable {a addr : IpAddr} {written : List IpAddrState} {stage : Stage}
variable {state : Option IpAddrState}

theorem entered_key (db0 : Database) (data : ProxyData) (now : Nat) (hwf : db0.Wf) :
    (entered db0 data now).key = (data.ip, data.port) := by
  unfold entered
  cases hfind : db0.findAddr data.ip data.port with
  | none => rfl
  | some a => exact ((Database.findAddr_eq_some_iff hwf).mp hfind).2

theorem entered_knows (hwf : db0.Wf) (data : ProxyData) (now : Nat) :
    db0.Knows (entered db0 data now) := by
  cases hfind : db0.findAddr data.ip data.port with
  | none =>
      have hid : (entered db0 data now).id = 0 := by simp [entered, hfind]
      exact fun hne => absurd hid hne
  | some a =>
      have hid : (entered db0 data now).id = a.id := by simp [entered, hfind]
      exact .of_findAddr hwf hfind hid (entered_key db0 data now hwf)

/-- The first save of a call that is alone is not rejected by the index. -/
theorem saveAddr_entered_ne (hwf : db0.Wf) (data : ProxyData) (now : Nat) :
    db0.saveAddr (entered db0 data now) ≠ none := by
  intro h
  have hfound := Database.isSome_of_saveAddr_none (entered_key db0 data now hwf) h
  obtain ⟨a, ha⟩ := Option.isSome_iff_exists.mp hfound
  refine Database.findAddr_id_pos hwf ha ?_
  simpa [entered, ha] using (Database.saveAddr_eq_none_iff.mp h).1

theorem Entered.of_saved (hwf : db0.Wf)
    (hsaved : Database.Saved db0 (entered db0 data now) db a) : Entered db0 data now a db [] := by
  have hfound := hsaved.found_of_key (entered_key db0 data now hwf)
  have hid : a.id = idOf db0 data.ip data.port := by
    unfold idOf
    cases hfind : db0.findAddr data.ip data.port with
    | none => exact (hsaved.fresh (by simp [entered, hfind])).2
    | some b =>
        have hb := Database.findAddr_id_pos hwf hfind
        have hent : (entered db0 data now).id = b.id := by simp [entered, hfind]
        exact (hsaved.id_eq (hent ▸ hb)).trans hent
  refine ⟨hsaved.wf, hfound, ?_, hsaved.id_ne, hsaved.id_lt, hsaved.next_le, by
    simp [hsaved.states_eq]⟩
  rw [← hid]
  exact hsaved.entity

/-- Only the address table, its next id and the states matter. -/
theorem Entered.congr {states : List IpAddrState} (h : Entered db0 data now a db written)
    (haddrs : db'.addrs = db.addrs) (hnext : db'.nextId = db.nextId)
    (hstates : db'.states = db.states ++ states) :
    Entered db0 data now a db' (written ++ states) := by
  refine ⟨h.wf.congr haddrs hnext, ?_, h.entity, h.id_ne, hnext ▸ h.id_lt, hnext ▸ h.next_le, ?_⟩
  · rw [Database.findAddr_congr haddrs]
    exact h.found
  · rw [hstates, h.states, List.append_assoc]

theorem Entered.validationId (h : Entered db0 data now a db written) :
    a.validationId = (entered db0 data now).validationId := by rw [h.entity]

theorem Entered.streak (h : Entered db0 data now a db written) :
    a.streak = (entered db0 data now).streak := by
  rw [h.entity]
  rfl

theorem Entered.lastCheckedAt (h : Entered db0 data now a db written) :
    a.lastCheckedAt = some now := by
  rw [h.entity]
  rfl

theorem Entered.id_eq (h : Entered db0 data now a db written) :
    a.id = idOf db0 data.ip data.port := by rw [h.entity]

/-- The states depend on the entity by its id and `validation_id`. -/
theorem builtStates_congr {b : IpAddr} {results : JudgeResults} (hid : a.id = b.id)
    (hv : a.validationId = b.validationId) : builtStates a results = builtStates b results := by
  simp [builtStates, buildState, hid, hv]

/-! ## The stages -/

theorem within_promiseAll {results : JudgeResults} {todo : List IpAddrState}
    (hresults : c.data.results = some results) (h : Entered db0 c.data c.now a db written)
    (hsame : SameButProtocols addr a) (hperm : (written ++ todo).Perm (builtStates a results)) :
    Within db0 { c with stage := promiseAll addr (hasEnabled results) c.now todo } db := by
  cases todo with
  | nil =>
      refine ⟨a, results, written, hresults, h, ?_, ?_, ?_, ?_, ?_, by simpa using hperm⟩
      · simpa using hsame.id_eq
      · simpa using hsame.key_eq
      · simpa using hsame.validationId_eq
      · simpa using hsame.lastCheckedAt_eq
      · simp [StoreCall.after, StoreCall.update, hresults, hsame.streak_eq]
  | cons st todo => exact ⟨a, results, written, hresults, h, hsame, rfl, hperm⟩

theorem within_storing {results : JudgeResults} (hresults : c.data.results = some results)
    (h : Entered db0 c.data c.now a db []) :
    Within db0 { c with stage := storing a results c.now } db := by
  rw [storing_eq]
  exact within_promiseAll hresults h (withProtocols_same a results) (.refl _)

/-- Without results the call ends with its first save. -/
theorem ended_of_entered (hresults : c.data.results = none)
    (h : Entered db0 c.data c.now a db []) : Ended db0 c a db := by
  refine ⟨h.wf, h.found, h.id_eq, h.validationId, h.lastCheckedAt, ?_, h.id_lt, h.next_le,
    [], h.states, ?_⟩
  · simpa [StoreCall.after, StoreCall.update, hresults] using h.streak
  · simp [StoreCall.built, hresults]

/-- The last save. -/
theorem ended_of_saved {results : JudgeResults} {addr' : IpAddr}
    (hresults : c.data.results = some results) (h : Entered db0 c.data c.now a db written)
    (hid : addr.id = a.id) (hkey : addr.key = a.key)
    (hv : addr.validationId = a.validationId) (hlast : addr.lastCheckedAt = a.lastCheckedAt)
    (hstreak : addr.streak = c.after a.streak) (hperm : written.Perm (builtStates a results))
    (hsave : db.saveAddr addr = some (db', addr')) : Ended db0 c addr' db' := by
  have hfrom := ((Database.findAddr_eq_some_iff h.wf).mp h.found).2
  have hsaved := Database.saveAddr_saved h.wf
    (.of_findAddr h.wf h.found hid (hkey.trans hfrom)) hsave
  have haddr : addr' = addr := by
    rw [hsaved.entity, hsaved.id_eq (hid ▸ h.id_ne)]
  subst haddr
  have hfound := hsaved.found_of_key (hkey.trans hfrom)
  refine ⟨hsaved.wf, hfound, hid.trans h.id_eq, hv.trans h.validationId,
    hlast.trans h.lastCheckedAt, ?_, hsaved.id_lt, Nat.le_trans h.next_le hsaved.next_le,
    written, hsaved.states_eq.trans h.states, ?_⟩
  · rw [hstreak, h.streak]
  · simpa [StoreCall.built, hresults, builtStates_congr hid hv] using hperm

/-- **Step lemma**: an operation that is not rejected, and the rejected
save of a location. -/
theorem Within.next {b : Bool} (hwf : db0.Wf) (h : Within db0 c db)
    (hnext : Next db c b db' stage state)
    (hb : b = true → ∃ addr loc, c.stage = .savingLoc addr loc) :
    Within db0 { c with stage := stage } db' := by
  unfold Within at h
  cases hnext with
  | found hstage =>
      rw [hstage] at h
      exact ⟨h, by rw [h]⟩
  | duplicate addr hstage hsave =>
      rw [hstage] at h
      obtain ⟨rfl, rfl⟩ := h
      exact absurd hsave (saveAddr_entered_ne hwf c.data c.now)
  | saved addr db' addr' hstage hsave =>
      rw [hstage] at h
      obtain ⟨rfl, rfl⟩ := h
      have hsaved := Database.saveAddr_saved hwf (entered_knows hwf c.data c.now) hsave
      have hentered := Entered.of_saved hwf hsaved
      unfold Store.saved
      cases hresults : c.data.results with
      | none => exact ended_of_entered hresults hentered
      | some results => exact hentered
  | located addr results hstage hresults =>
      rw [hstage] at h
      rcases located_cases addr c.data results c.now with heq | ⟨loc, heq⟩
      · rw [heq]
        exact within_storing hresults h
      · rw [heq]
        exact h
  | savedLoc addr loc results hstage hresults =>
      rw [hstage] at h
      have hloc : Entered db0 c.data c.now addr (db.saveLoc loc) ([] ++ []) :=
        h.congr rfl rfl (List.append_nil _).symm
      exact within_storing hresults hloc
  | stored addr enabled todo k st hstage hk =>
      rw [hstage] at h
      obtain ⟨a, results, written, hresults, hentered, hsame, rfl, hperm⟩ := h
      have hmoved : (written ++ [st] ++ todo.eraseIdx k).Perm (written ++ todo) := by
        obtain ⟨hlt, rfl⟩ := List.getElem?_eq_some_iff.mp hk
        rw [List.append_assoc]
        exact (List.getElem_cons_eraseIdx_perm hlt).append_left written
      exact within_promiseAll hresults (hentered.congr rfl rfl rfl) hsame (hmoved.trans hperm)
  | storedLate todo k st hstage hk =>
      rw [hstage] at h
      exact absurd h id
  | gone addr hstage hsave =>
      rw [hstage] at h
      obtain ⟨a, results, written, -, hentered, hid, -⟩ := h
      exact absurd (Database.saveAddr_eq_none_iff.mp hsave).1 (hid ▸ hentered.id_ne)
  | counted addr db' addr' hstage hsave =>
      rw [hstage] at h
      obtain ⟨a, results, written, hresults, hentered, hid, hkey, hv, hlast, hstreak, hperm⟩ := h
      exact ended_of_saved hresults hentered hid hkey hv hlast hstreak hperm hsave
  | rejectedLoc addr loc results hstage hresults =>
      rw [hstage] at h
      exact within_storing hresults h
  | _ =>
      obtain ⟨addr, loc, hloc⟩ := hb rfl
      simp_all

/-! ## Behind the call -/

/-- No state carries a `validation_id` above the one of its address, and
none an id of an address to come. -/
structure Consistent (db : Database) (ip : Text) (port : Nat) : Prop where
  wf : db.Wf
  addr_lt : ∀ st ∈ db.states, st.addrId < db.nextId
  le : ∀ a, db.findAddr ip port = some a →
    ∀ st ∈ db.states, st.addrId = a.id → st.validationId ≤ a.validationId

theorem mem_built {st : IpAddrState} (h : st ∈ c.built a) :
    st.addrId = a.id ∧ st.validationId = a.validationId := by
  unfold StoreCall.built at h
  cases hresults : c.data.results with
  | none => simp [hresults] at h
  | some results =>
      rw [hresults] at h
      obtain ⟨r, -, rfl⟩ := List.mem_map.mp h
      exact ⟨rfl, rfl⟩

/-- The states the call has found carry a lower `validation_id`. -/
theorem Ended.lt_of_mem (h0 : Consistent db0 c.data.ip c.data.port) (h : Ended db0 c a db)
    {st : IpAddrState} (hst : st ∈ db0.states) (hid : st.addrId = a.id) :
    st.validationId < a.validationId := by
  rw [h.validationId]
  rw [h.id_eq] at hid
  cases hfind : db0.findAddr c.data.ip c.data.port with
  | none =>
      have := h0.addr_lt st hst
      simp [idOf, hfind] at hid
      omega
  | some b =>
      have := h0.le b hfind st hst (by simpa [idOf, hfind] using hid)
      simp [entered, hfind]
      omega

theorem Ended.consistent (h0 : Consistent db0 c.data.ip c.data.port) (h : Ended db0 c a db) :
    Consistent db c.data.ip c.data.port := by
  obtain ⟨written, hstates, hperm⟩ := h.states
  refine ⟨h.wf, ?_, ?_⟩
  · intro st hst
    rw [hstates] at hst
    rcases List.mem_append.mp hst with hst | hst
    · exact Nat.lt_of_lt_of_le (h0.addr_lt st hst) h.next_le
    · rw [(mem_built (hperm.mem_iff.mp hst)).1]
      exact h.id_lt
  · intro b hb st hst hid
    rw [h.found] at hb
    cases hb
    rw [hstates] at hst
    rcases List.mem_append.mp hst with hst | hst
    · exact Nat.le_of_lt (h.lt_of_mem h0 hst hid)
    · exact Nat.le_of_eq (mem_built (hperm.mem_iff.mp hst)).2

/-- **The join**: the address joins the states of the call. -/
theorem Ended.joined_perm (h0 : Consistent db0 c.data.ip c.data.port) (h : Ended db0 c a db) :
    (db.joined a).Perm (c.built a) := by
  obtain ⟨written, hstates, hperm⟩ := h.states
  have hold : db0.states.filter (fun st => st.addrId = a.id && st.validationId = a.validationId) =
      [] := by
    refine List.filter_eq_nil_iff.mpr ?_
    intro st hst hboth
    simp only [Bool.and_eq_true, decide_eq_true_eq] at hboth
    have := h.lt_of_mem h0 hst hboth.1
    omega
  have hnew : written.filter (fun st => st.addrId = a.id && st.validationId = a.validationId) =
      written := by
    refine List.filter_eq_self.mpr ?_
    intro st hst
    simp [mem_built (hperm.mem_iff.mp hst)]
  rw [Database.joined, hstates, List.filter_append, hold, hnew]
  exact hperm

end

/-! ## One call behind the other -/

/-- A step of calls for one address, with results, that are made when no
other is under way; no operation is rejected. -/
def Sequential (ip : Text) (port : Nat) (s : Store) : StoreAction → Prop
  | .store data => (∀ c ∈ s.calls, isOver c.stage = true) ∧ data.ip = ip ∧ data.port = port ∧
      data.results.isSome = true
  | .validated data _ => (∀ c ∈ s.calls, isOver c.stage = true) ∧ data.ip = ip ∧ data.port = port
  | .reject _ | .rejectState _ _ => False
  | .tick _ | .go _ | .saveState _ _ => True

instance (ip : Text) (port : Nat) (s : Store) : ∀ a, Decidable (Sequential ip port s a)
  | .store _ => inferInstanceAs (Decidable (_ ∧ _))
  | .validated _ _ => inferInstanceAs (Decidable (_ ∧ _))
  | .reject _ | .rejectState _ _ => inferInstanceAs (Decidable False)
  | .tick _ | .go _ | .saveState _ _ => inferInstanceAs (Decidable True)

/-- The call is for the address and has results. -/
structure For (ip : Text) (port : Nat) (c : StoreCall) : Prop where
  ip_eq : c.data.ip = ip
  port_eq : c.data.port = port
  results : c.data.results.isSome = true

/-- Call `c` behind others that are over, and the database it has found. -/
structure Alone (calls : List StoreCall) (c : StoreCall) (db0 : Database) (s : Store) : Prop where
  others : ∀ d ∈ calls, isOver d.stage = true
  last : ∃ stage, s.calls = calls ++ [{ c with stage := stage }] ∧
    Within db0 { c with stage := stage } s.db

section

variable {options : ValidatorOptions} {ip : Text} {port : Nat} {s s' t : Store} {c d : StoreCall}
variable {calls : List StoreCall} {db0 : Database} {as : List StoreAction} {a : StoreAction}

theorem done_of_within {db : Database} (h : Within db0 c db) (hover : isOver c.stage = true) :
    ∃ addr, c.stage = .done addr ∧ Ended db0 c addr db := by
  obtain ⟨data, now, stage⟩ := c
  cases stage with
  | done addr => exact ⟨addr, rfl, h⟩
  | failed todo => exact absurd h id
  | skipped => exact absurd h id
  | _ => cases hover

/-- The last call is the one that moves. -/
theorem last_of_not_over {i : Nat} (hover : ∀ e ∈ calls, isOver e.stage = true)
    (hd : (calls ++ [c])[i]? = some d) (hnot : isOver d.stage = false) :
    i = calls.length ∧ d = c := by
  by_cases hi : i < calls.length
  · rw [List.getElem?_append_left hi] at hd
    simp [hover d (List.mem_of_getElem? hd)] at hnot
  · have hlen := (List.getElem?_eq_some_iff.mp hd).1
    simp only [List.length_append, List.length_singleton] at hlen
    have heq : i = calls.length := by omega
    subst heq
    simp only [List.getElem?_concat_length, Option.some.injEq] at hd
    exact ⟨rfl, hd.symm⟩

/-- **Step lemma** of a call that is alone. -/
theorem Alone.step (hwf : db0.Wf) (h : Alone calls c db0 s) (hcalls : a.calls = false)
    (hrejects : a.rejects = false) (hstep : Store.step options s a = some s') :
    Alone calls c db0 s' := by
  obtain ⟨hover, stage, heq, hwithin⟩ := h
  rcases step_cases hcalls hstep with ⟨ms, rfl, rfl⟩ | ⟨i, d, db, stage', state, -, hd, hnext, rfl⟩
  · exact ⟨hover, stage, heq, hwithin⟩
  · rw [hrejects] at hnext
    rw [heq] at hd
    obtain ⟨rfl, rfl⟩ := last_of_not_over hover hd hnext.not_over
    have hwithin' := hwithin.next hwf hnext (by simp)
    exact ⟨hover, stage', by simp [Store.next, heq], hwithin'⟩

/-- **Run lemma**: the call returns. -/
theorem Alone.run (hwf : db0.Wf) (h : Alone calls c db0 s)
    (has : ∀ a ∈ as, a.calls = false ∧ a.rejects = false)
    (hrun : (machine options).run s as = some t) (ht : ∀ d ∈ t.calls, isOver d.stage = true) :
    ∃ addr, Ended db0 { c with stage := .done addr } addr t.db := by
  obtain ⟨-, stage, heq, hwithin⟩ := (machine options).run_invariant_on
    (fun _ _ _ hu ha hstep => hu.step hwf ha.1 ha.2 hstep) h has hrun
  obtain ⟨addr, haddr, hended⟩ := done_of_within hwithin (ht _ (by simp [heq]))
  exact ⟨addr, by simpa [← haddr] using hended⟩

end

/-! ## Chains of calls -/

/-- What calls made one behind the other leave: `H` relates the calls so
far to the database, and every call that is over keeps it. -/
structure Chain (ip : Text) (port : Nat) (H : List StoreCall → Database → Prop) : Prop where
  wf : ∀ calls db, H calls db → db.Wf
  ended : ∀ calls db0 c addr db, H calls db0 → For ip port c → c.stage = .done addr →
    Ended db0 c addr db → H (calls ++ [c]) db
  skipped : ∀ calls db c, H calls db → For ip port c → c.stage = .skipped → H (calls ++ [c]) db

/-- No call is under way, or the last one is. -/
inductive Chained (ip : Text) (port : Nat) (H : List StoreCall → Database → Prop) (s : Store) :
    Prop where
  | idle (hover : ∀ c ∈ s.calls, isOver c.stage = true) (h : H s.calls s.db)
  | busy (calls : List StoreCall) (c : StoreCall) (db0 : Database) (h : H calls db0)
      (hfor : For ip port c) (halone : Alone calls c db0 s)

section

variable {options : ValidatorOptions} {ip : Text} {port : Nat} {s s' t : Store}
variable {H : List StoreCall → Database → Prop} {as : List StoreAction} {a : StoreAction}

/-- When all calls are over, so is the last one. -/
theorem Chained.history (hH : Chain ip port H) (h : Chained ip port H s)
    (hover : ∀ c ∈ s.calls, isOver c.stage = true) : H s.calls s.db := by
  cases h with
  | idle _ h => exact h
  | busy calls c db0 h hfor halone =>
      obtain ⟨-, stage, heq, hwithin⟩ := halone
      obtain ⟨addr, haddr, hended⟩ := done_of_within hwithin (hover _ (by simp [heq]))
      rw [heq]
      exact hH.ended calls db0 _ addr s.db h ⟨hfor.ip_eq, hfor.port_eq, hfor.results⟩ haddr hended

/-- A call of `store` is made. -/
theorem Chained.called {data : ProxyData} (hover : ∀ c ∈ s.calls, isOver c.stage = true)
    (h : H s.calls s.db) (hfor : For ip port ⟨data, s.clock, .finding⟩) :
    Chained ip port H (s.call data .finding) :=
  .busy s.calls _ s.db h hfor ⟨hover, .finding, rfl, rfl⟩

/-- **Step lemma** of calls made one behind the other. -/
theorem Chained.step (hH : Chain ip port H) (h : Chained ip port H s)
    (ha : Sequential ip port s a) (hstep : Store.step options s a = some s') :
    Chained ip port H s' := by
  have hmove : a.calls = false → a.rejects = false → Chained ip port H s' := by
    intro hcalls hrejects
    cases h with
    | idle hover h =>
        rcases step_cases hcalls hstep with ⟨ms, rfl, rfl⟩ |
          ⟨i, d, db, stage, state, -, hd, hnext, rfl⟩
        · exact .idle hover h
        · have hnot := hnext.not_over
          rw [hover d (List.mem_of_getElem? hd)] at hnot
          cases hnot
    | busy calls c db0 h hfor halone =>
        exact .busy calls c db0 h hfor (halone.step (hH.wf calls db0 h) hcalls hrejects hstep)
  cases a with
  | store data =>
      obtain ⟨hover, hip, hport, hresults⟩ := ha
      cases hstep
      exact .called hover (h.history hH hover) ⟨hip, hport, hresults⟩
  | validated data results =>
      obtain ⟨hover, hip, hport⟩ := ha
      have hnow := h.history hH hover
      cases hstep
      split
      · exact .called hover hnow ⟨hip, hport, rfl⟩
      · refine .idle ?_ (hH.skipped s.calls s.db _ hnow ⟨hip, hport, rfl⟩ rfl)
        intro c hc
        rcases List.mem_append.mp hc with hc | hc
        · exact hover c hc
        · rw [List.mem_singleton.mp hc]
          rfl
  | reject i => exact absurd ha id
  | rejectState i k => exact absurd ha id
  | tick ms => exact hmove rfl rfl
  | go i => exact hmove rfl rfl
  | saveState i k => exact hmove rfl rfl

/-- **Chain rule**: what every call keeps that is made when no other is
under way holds behind every such run. -/
theorem Chain.run (hH : Chain ip port H) (hidle : s.calls = []) (h0 : H [] s.db)
    (has : (machine options).Along (Sequential ip port) s as)
    (h : (machine options).run s as = some t) (hover : ∀ c ∈ t.calls, isOver c.stage = true) :
    H t.calls t.db := by
  have hs : Chained ip port H s := .idle (by simp [hidle]) (by rw [hidle]; exact h0)
  have ht := (machine options).run_guarded
    (fun u a u' hu ha hstep => hu.step hH ha hstep) has hs h
  exact ht.history hH hover

/-- Calls made one behind the other keep the database consistent. -/
theorem consistent_chain (ip : Text) (port : Nat) :
    Chain ip port (fun _ db => Consistent db ip port) where
  wf _ _ h := h.wf
  ended calls db0 c addr db h hfor _ hended := by
    obtain ⟨hip, hport, -⟩ := hfor
    subst hip hport
    exact hended.consistent h
  skipped _ _ _ h _ _ := h

end

end Store

end ProxyBroker.Proxy.Storage
