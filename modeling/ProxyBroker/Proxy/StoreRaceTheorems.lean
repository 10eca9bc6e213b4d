/-
ProxyBroker.Proxy.StoreRaceTheorems — two `store` calls for one address,
interleaved at their awaits.

`store` reads the row of the address, saves it with the next
`validation_id`, and saves it again with the counters. The calls are
clients of `Lib.VersionedRow`: `table` is what they and the row are there,
`touch` the operations on the row, and `refines` the simulation. What one
call makes of the other's row is decided there (`kept_iff`).

`resultsKept_iff`: both results are kept exactly if one call was served
behind the other, or if the second call read between the two saves of the
first and saved last, the two verdicts differ, and the streak the second
one starts was empty.
-/
import ProxyBroker.Lib.VersionedRow
import ProxyBroker.Proxy.StoreTheorems

namespace ProxyBroker.Proxy.Storage

open Lib Lib.VersionedRow Server

/-! ## Calls as clients -/

def IpAddr.row (a : IpAddr) : Row Streak := ⟨a.validationId, a.streak⟩

namespace StoreCall

/-- What a call makes of a row that is found. -/
def updated (c : StoreCall) (a : IpAddr) : Row Streak :=
  ⟨a.validationId, c.after a.streak⟩

def phase (c : StoreCall) : VersionedRow.Phase Streak :=
  match c.stage with
  | .finding => .fresh
  | .saving addr => .read (decide (addr.id = 0)) addr.row
  | .locating addr | .savingLoc addr _ => .saved (c.updated addr)
  | .storing addr enabled _ => .saved (addr.count enabled c.now).row
  | .finalSaving addr => .saved addr.row
  | .done addr => .done addr.validationId
  | .failed _ | .skipped => .failed

end StoreCall

namespace Store

def clients (calls : List StoreCall) : Clients Nat Streak where
  update i := calls[i]?.bind StoreCall.update
  initial := {}

/-- The calls and the row of an address. -/
def table (ip : Text) (port : Nat) (s : Store) : Table Nat Streak where
  row := (s.db.findAddr ip port).map IpAddr.row
  phase i := (s.calls[i]?).elim .failed StoreCall.phase

/-- The operation on the row of the address that a call waits for. -/
def touchOf : Stage → Option Touch
  | .finding => some .read
  | .saving _ => some .first
  | .finalSaving _ => some .last
  | _ => none

def touch (s : Store) (a : StoreAction) : Option (Nat × Touch) :=
  a.index.bind (fun i => s.calls[i]?.bind (fun c => (touchOf c.stage).map (fun k => (i, k))))

/-- The operations on the row of the address, in their order. -/
def history (options : ValidatorOptions) (s : Store) (as : List StoreAction) :
    List (Nat × Touch) :=
  (machine options).trace touch s as

/-- The entity in the hand of a call, and whether it is saved. -/
def entity : Stage → Option (IpAddr × Bool)
  | .saving addr => some (addr, false)
  | .locating addr | .savingLoc addr _ | .storing addr _ _ | .finalSaving addr | .done addr =>
      some (addr, true)
  | .finding | .failed _ | .skipped => none

/-- The entity is of the address of the call. -/
structure Owns (db : Database) (ip : Text) (port : Nat) (c : StoreCall) : Prop where
  ip_eq : c.data.ip = ip
  port_eq : c.data.port = port
  entity_ok : ∀ a b, entity c.stage = some (a, b) →
    a.key = (ip, port) ∧ db.Knows a ∧ (b = true → a.id ≠ 0)

/-- Every call is for the address and has an entity of it. -/
structure Race (calls : List StoreCall) (ip : Text) (port : Nat) (s : Store) : Prop where
  wf : s.db.Wf
  clients_eq : clients s.calls = clients calls
  owns : ∀ c ∈ s.calls, Owns s.db ip port c

section

variable {s s' : Store} {i : Nat} {c : StoreCall} {stage : Stage} {db : Database}
variable {state : Option IpAddrState} {ip : Text} {port : Nat} {calls : List StoreCall}

theorem clients_set (hc : s.calls[i]? = some c) :
    clients (s.calls.set i { c with stage := stage }) = clients s.calls := by
  have hupdate : ∀ j : Nat, ((s.calls.set i { c with stage := stage })[j]?).bind StoreCall.update =
      (s.calls[j]?).bind StoreCall.update := by
    intro j
    by_cases hij : i = j
    · subst hij
      have hi : i < s.calls.length := (List.getElem?_eq_some_iff.mp hc).1
      rw [List.getElem?_set_self hi, hc]
      rfl
    · rw [List.getElem?_set_ne hij]
  simp only [clients, hupdate]

theorem table_next (hc : s.calls[i]? = some c) :
    table ip port (s.next i c db stage state) =
      ⟨(db.findAddr ip port).map IpAddr.row,
        Function.update (table ip port s).phase i (StoreCall.phase { c with stage := stage })⟩ := by
  have hi : i < s.calls.length := (List.getElem?_eq_some_iff.mp hc).1
  simp only [table, next, Table.mk.injEq, true_and]
  funext j
  by_cases hij : j = i
  · subst hij
    simp [hi]
  · rw [Function.update_of_ne hij, List.getElem?_set_ne (Ne.symm hij)]

theorem table_phase (ip : Text) (port : Nat) (hc : s.calls[i]? = some c) :
    (table ip port s).phase i = c.phase := by
  simp [table, hc]

theorem entity_promiseAll (addr : IpAddr) (enabled : Bool) (now : Nat)
    (todo : List IpAddrState) :
    ∃ a, entity (promiseAll addr enabled now todo) = some (a, true) ∧ a.id = addr.id ∧
      a.key = addr.key := by
  cases todo with
  | nil => exact ⟨addr.count enabled now, rfl, by simp, by simp⟩
  | cons st todo => exact ⟨addr, rfl, rfl, rfl⟩

theorem phase_promiseAll {addr : IpAddr} {enabled : Bool} {todo : List IpAddrState} :
    StoreCall.phase { c with stage := promiseAll addr enabled c.now todo } =
      .saved (addr.count enabled c.now).row := by
  cases todo <;> rfl

theorem phase_storing {addr : IpAddr} {results : JudgeResults}
    (hresults : c.data.results = some results) :
    StoreCall.phase { c with stage := storing addr results c.now } = .saved (c.updated addr) := by
  have hsame := withProtocols_same addr results
  rw [storing_eq, phase_promiseAll]
  simp [StoreCall.updated, StoreCall.after, StoreCall.update, hresults, IpAddr.row,
    hsame.validationId_eq, hsame.streak_eq]

theorem entity_storing (addr : IpAddr) (results : JudgeResults) (now : Nat) :
    ∃ a, entity (storing addr results now) = some (a, true) ∧ a.id = addr.id ∧
      a.key = addr.key := by
  have hsame := withProtocols_same addr results
  rw [storing_eq]
  obtain ⟨a, ha, hid, hkey⟩ := entity_promiseAll (withProtocols addr results)
    (hasEnabled results) now (builtStates addr results)
  exact ⟨a, ha, hid.trans hsame.id_eq, hkey.trans hsame.key_eq⟩

/-! ## The simulation -/

theorem Owns.mono {db' : Database} (h : Owns db ip port c)
    (hknows : ∀ a, db.Knows a → db'.Knows a) : Owns db' ip port c :=
  ⟨h.ip_eq, h.port_eq, fun a b hab =>
    ⟨(h.entity_ok a b hab).1, hknows a (h.entity_ok a b hab).2.1, (h.entity_ok a b hab).2.2⟩⟩

/-- A call that goes on with an entity that has the id and the key of
one it owns. -/
theorem Owns.goOn {a a' : IpAddr} {b : Bool} (h : Owns db ip port c)
    (hfrom : entity c.stage = some (a, true)) (hto : entity stage = some (a', b))
    (hid : a'.id = a.id) (hkey : a'.key = a.key) : Owns db ip port { c with stage := stage } := by
  obtain ⟨hk, hknows, hne⟩ := h.entity_ok a true hfrom
  refine ⟨h.ip_eq, h.port_eq, ?_⟩
  intro a₁ b₁ h₁
  cases hto.symm.trans h₁
  refine ⟨hkey.trans hk, ?_, fun _ => hid ▸ hne rfl⟩
  rw [Database.Knows, hid, hkey]
  exact hknows

theorem Owns.over (h : Owns db ip port c) (hto : entity stage = none) :
    Owns db ip port { c with stage := stage } :=
  ⟨h.ip_eq, h.port_eq, fun a b hab => by simp [hto] at hab⟩

theorem Owns.saved {a a' : IpAddr} {db' : Database} {b : Bool} (h : Owns db ip port c)
    (hfrom : entity c.stage = some (a, b)) (hsaved : Database.Saved db a db' a')
    (hto : entity stage = some (a', true)) : Owns db' ip port { c with stage := stage } := by
  obtain ⟨hk, -, -⟩ := h.entity_ok a b hfrom
  refine ⟨h.ip_eq, h.port_eq, ?_⟩
  intro a₁ b₁ h₁
  cases hto.symm.trans h₁
  have hkey := hsaved.key_eq.trans hk
  exact ⟨hkey, .of_findAddr hsaved.wf hsaved.found rfl hsaved.key_eq, fun _ => hsaved.id_ne⟩

theorem owns_entered (hwf : s.db.Wf) (h : Owns s.db ip port c) :
    Owns s.db ip port { c with stage := .saving (entered s.db c.data c.now) } := by
  refine ⟨h.ip_eq, h.port_eq, ?_⟩
  intro a b hab
  cases hab
  rw [← h.ip_eq, ← h.port_eq]
  cases hfind : s.db.findAddr c.data.ip c.data.port with
  | none =>
      have he : entered s.db c.data c.now =
          { ip := c.data.ip, port := c.data.port, validationId := 1,
            lastCheckedAt := some c.now } := by simp [entered, hfind]
      rw [he]
      exact ⟨rfl, fun hne => absurd rfl hne, by simp⟩
  | some a =>
      have he : entered s.db c.data c.now =
          { a with validationId := a.validationId + 1, lastCheckedAt := some c.now } := by
        simp [entered, hfind]
      have hkey := ((Database.findAddr_eq_some_iff hwf).mp hfind).2
      rw [he]
      exact ⟨hkey, .of_findAddr hwf hfind rfl hkey, by simp⟩

theorem entity_saved (addr : IpAddr) (data : ProxyData) :
    entity (saved addr data) = some (addr, true) := by
  unfold saved
  split <;> rfl

theorem Race.keep (hr : Race calls ip port s) (hc : s.calls[i]? = some c) (hwf : db.Wf)
    (hknows : ∀ a, s.db.Knows a → db.Knows a)
    (hown : Owns db ip port { c with stage := stage }) :
    Race calls ip port (s.next i c db stage state) := by
  refine ⟨hwf, (clients_set hc).trans hr.clients_eq, ?_⟩
  intro d hd
  rcases List.mem_or_eq_of_mem_set hd with hd | rfl
  · exact (hr.owns d hd).mono hknows
  · exact hown

/-- The address table stays the same. -/
theorem Race.keepSame (hr : Race calls ip port s) (hc : s.calls[i]? = some c)
    (haddrs : db.addrs = s.db.addrs) (hnext : db.nextId = s.db.nextId)
    (hown : Owns s.db ip port { c with stage := stage }) :
    Race calls ip port (s.next i c db stage state) :=
  hr.keep hc (hr.wf.congr haddrs hnext) (fun _ h => h.congr haddrs)
    (hown.mono fun _ h => h.congr haddrs)

theorem Owns.storing {addr : IpAddr} (h : Owns db ip port c)
    (hfrom : entity c.stage = some (addr, true)) (results : JudgeResults) :
    Owns db ip port { c with stage := storing addr results c.now } := by
  obtain ⟨a, ha, hid, hkey⟩ := entity_storing addr results c.now
  exact h.goOn hfrom ha hid hkey

/-- **Step lemma**: an operation keeps the calls to their address. -/
theorem Race.next (hr : Race calls ip port s) (hc : s.calls[i]? = some c)
    (hnext : Next s.db c false db stage state) :
    Race calls ip port (s.next i c db stage state) := by
  have hown := hr.owns c (List.mem_of_getElem? hc)
  cases hnext with
  | found h => exact hr.keepSame hc rfl rfl (owns_entered hr.wf hown)
  | duplicate addr h hsave => exact hr.keepSame hc rfl rfl (hown.over rfl)
  | saved addr db' addr' h hsave =>
      have hfrom : entity c.stage = some (addr, false) := by rw [h]; rfl
      have hsaved := Database.saveAddr_saved hr.wf (hown.entity_ok _ _ hfrom).2.1 hsave
      exact hr.keep hc hsaved.wf hsaved.knows (hown.saved hfrom hsaved (entity_saved _ _))
  | located addr results h hresults =>
      have hfrom : entity c.stage = some (addr, true) := by rw [h]; rfl
      rcases located_cases addr c.data results c.now with heq | ⟨loc, heq⟩
      · rw [heq]
        exact hr.keepSame hc rfl rfl (hown.storing hfrom results)
      · rw [heq]
        exact hr.keepSame hc rfl rfl (hown.goOn hfrom rfl rfl rfl)
  | savedLoc addr loc results h hresults =>
      have hfrom : entity c.stage = some (addr, true) := by rw [h]; rfl
      exact hr.keepSame hc rfl rfl (hown.storing hfrom results)
  | stored addr enabled todo k st h hk =>
      have hfrom : entity c.stage = some (addr, true) := by rw [h]; rfl
      obtain ⟨a, ha, hid, hkey⟩ := entity_promiseAll addr enabled c.now (todo.eraseIdx k)
      exact hr.keepSame hc rfl rfl (hown.goOn hfrom ha hid hkey)
  | storedLate todo k st h hk => exact hr.keepSame hc rfl rfl (hown.over rfl)
  | gone addr h hsave => exact hr.keepSame hc rfl rfl (hown.over rfl)
  | counted addr db' addr' h hsave =>
      have hfrom : entity c.stage = some (addr, true) := by rw [h]; rfl
      have hsaved := Database.saveAddr_saved hr.wf (hown.entity_ok _ _ hfrom).2.1 hsave
      exact hr.keep hc hsaved.wf hsaved.knows (hown.saved hfrom hsaved rfl)

/-- An operation that is none on the row leaves the clients alone. -/
theorem stutters (hc : s.calls[i]? = some c) (htouch : touchOf c.stage = none)
    (haddrs : db.addrs = s.db.addrs)
    (hphase : StoreCall.phase { c with stage := stage } = c.phase) :
    (clients calls).machine.run (table ip port s)
        ((touchOf c.stage).map (fun k => (i, k))).toList =
      some (table ip port (s.next i c db stage state)) := by
  rw [htouch, table_next hc, hphase, ← table_phase ip port hc,
    Function.update_eq_self, Database.findAddr_congr haddrs]
  rfl

theorem entered_row (calls : List StoreCall) (hwf : s.db.Wf) (data : ProxyData) (now : Nat) :
    (entered s.db data now).row =
        (clients calls).copy ((s.db.findAddr data.ip data.port).map IpAddr.row) ∧
      decide ((entered s.db data now).id = 0) =
        ((s.db.findAddr data.ip data.port).map IpAddr.row).isNone := by
  cases hfind : s.db.findAddr data.ip data.port with
  | none => simp [entered, hfind, Clients.copy, Clients.base, clients, IpAddr.row, IpAddr.streak]
  | some a =>
      have hid := Database.findAddr_id_pos hwf hfind
      simp [entered, hfind, Clients.copy, Clients.base, IpAddr.row, IpAddr.streak, hid]

theorem phase_saved (addr : IpAddr) :
    StoreCall.phase { c with stage := saved addr c.data } =
      match c.update with
      | none => .done addr.row.version
      | some f => .saved { addr.row with value := f addr.row.value } := by
  unfold saved StoreCall.update
  cases hresults : c.data.results with
  | none => rfl
  | some results =>
      simp [StoreCall.phase, StoreCall.updated, StoreCall.after, StoreCall.update, hresults,
        IpAddr.row]

theorem saved_row {a a' : IpAddr} {db' : Database} (h : Database.Saved db a db' a') :
    a'.row = a.row := by
  rw [h.entity]
  rfl

/-- **Simulation**: an operation of a call is one of its client, or none
on the row. -/
theorem simulates (hr : Race calls ip port s) (hc : s.calls[i]? = some c)
    (hnext : Next s.db c false db stage state) :
    (clients calls).machine.run (table ip port s)
        ((touchOf c.stage).map (fun k => (i, k))).toList =
      some (table ip port (s.next i c db stage state)) := by
  have hown := hr.owns c (List.mem_of_getElem? hc)
  have hphase := table_phase ip port hc
  cases hnext with
  | found h =>
      simp only [StoreCall.phase, h] at hphase
      obtain ⟨hrow, hnew⟩ := entered_row calls hr.wf c.data c.now
      rw [hown.ip_eq, hown.port_eq] at hrow hnew
      have hread : StoreCall.phase { c with stage := .saving (entered s.db c.data c.now) } =
          .read (table ip port s).row.isNone ((clients calls).copy (table ip port s).row) := by
        simp only [table]
        rw [← hrow, ← hnew]
        rfl
      rw [h, table_next hc, hread]
      simp only [touchOf, Option.map_some, Option.toList_some, Machine.run_singleton]
      exact Clients.step_read hphase
  | duplicate addr h hsave =>
      simp only [StoreCall.phase, h] at hphase
      have hfrom : entity c.stage = some (addr, false) := by rw [h]; rfl
      have hid := (Database.saveAddr_eq_none_iff.mp hsave).1
      have hfound := Database.isSome_of_saveAddr_none (hown.entity_ok _ _ hfrom).1 hsave
      rw [h, table_next hc]
      simp only [touchOf, Option.map_some, Option.toList_some, Machine.run_singleton]
      exact Clients.step_reject hphase (by simpa [table, hid] using hfound)
  | saved addr db' addr' h hsave =>
      simp only [StoreCall.phase, h] at hphase
      have hfrom : entity c.stage = some (addr, false) := by rw [h]; rfl
      obtain ⟨hkey, hknows, -⟩ := hown.entity_ok _ _ hfrom
      have hsaved := Database.saveAddr_saved hr.wf hknows hsave
      have hnew : (decide (addr.id = 0) && (table ip port s).row.isSome) = false := by
        by_cases hid : addr.id = 0
        · simp [table, hsaved.new_of_key hkey hid]
        · simp [hid]
      have hfound := hsaved.found_of_key hkey
      have hrow := saved_row hsaved
      have hupdate : (clients calls).update i = c.update := by
        rw [← hr.clients_eq]
        simp [clients, hc]
      rw [h, table_next hc, hfound, phase_saved, hrow, Option.map_some, hrow]
      simp only [touchOf, Option.map_some, Option.toList_some, Machine.run_singleton]
      refine (Clients.step_first hphase hnew).trans ?_
      rw [Clients.saved, hupdate]
      cases c.update <;> rfl
  | located addr results h hresults =>
      refine stutters hc (by rw [h]; rfl) rfl ?_
      have hbefore : c.phase = .saved (c.updated addr) := by simp [StoreCall.phase, h]
      rcases located_cases addr c.data results c.now with heq | ⟨loc, heq⟩
      · rw [heq, phase_storing hresults, hbefore]
      · rw [heq, hbefore]
        rfl
  | savedLoc addr loc results h hresults =>
      refine stutters hc (by rw [h]; rfl) rfl ?_
      rw [phase_storing hresults]
      simp [StoreCall.phase, h]
  | stored addr enabled todo k st h hk =>
      refine stutters hc (by rw [h]; rfl) rfl ?_
      rw [phase_promiseAll]
      simp [StoreCall.phase, h]
  | storedLate todo k st h hk =>
      refine stutters hc (by rw [h]; rfl) rfl ?_
      simp [StoreCall.phase, h]
  | gone addr h hsave =>
      have hfrom : entity c.stage = some (addr, true) := by rw [h]; rfl
      exact absurd (Database.saveAddr_eq_none_iff.mp hsave).1 ((hown.entity_ok _ _ hfrom).2.2 rfl)
  | counted addr db' addr' h hsave =>
      simp only [StoreCall.phase, h] at hphase
      have hfrom : entity c.stage = some (addr, true) := by rw [h]; rfl
      obtain ⟨hkey, hknows, -⟩ := hown.entity_ok _ _ hfrom
      have hsaved := Database.saveAddr_saved hr.wf hknows hsave
      have hfound := hsaved.found_of_key hkey
      have hrow := saved_row hsaved
      have hdone : StoreCall.phase { c with stage := .done addr' } = .done addr.row.version := by
        rw [← hrow]
        rfl
      rw [h, table_next hc, hfound, hdone, Option.map_some, hrow]
      simp only [touchOf, Option.map_some, Option.toList_some, Machine.run_singleton]
      exact Clients.step_last (C := clients calls) hphase

end

/-- Time passes, or an operation is done. -/
def proceeds (a : StoreAction) : Bool := !a.calls && !a.rejects

theorem step_proceeds {options : ValidatorOptions} {s s' : Store} {a : StoreAction}
    (ha : proceeds a = true) (h : step options s a = some s') :
    (∃ ms, a = .tick ms ∧ s' = { s with clock := s.clock + ms }) ∨
      ∃ i c db stage state, a.index = some i ∧ s.calls[i]? = some c ∧
        Next s.db c false db stage state ∧ s' = s.next i c db stage state := by
  simp only [proceeds, Bool.and_eq_true, Bool.not_eq_true'] at ha
  rw [← ha.2]
  exact step_cases ha.1 h

theorem refines (options : ValidatorOptions) (calls : List StoreCall) (ip : Text) (port : Nat) :
    (machine options).Refines (clients calls).machine (table ip port) touch
      (Race calls ip port) (fun a => proceeds a = true) where
  keeps s a s' hr ha h := by
    rcases step_proceeds ha h with ⟨ms, rfl, rfl⟩ | ⟨i, c, db, stage, state, -, hc, hnext, rfl⟩
    · exact ⟨hr.wf, hr.clients_eq, hr.owns⟩
    · exact hr.next hc hnext
  simulates s a s' hr ha h := by
    rcases step_proceeds ha h with ⟨ms, rfl, rfl⟩ | ⟨i, c, db, stage, state, hi, hc, hnext, rfl⟩
    · rfl
    · have hsim := simulates hr hc hnext
      have htouch : touch s a = (touchOf c.stage).map (fun k => (i, k)) := by
        simp [touch, hi, hc]
      rw [htouch]
      exact hsim

/-! ## The states of the calls -/

/-- The entity of a call whose states are issued. -/
def settled : Stage → Option IpAddr
  | .storing addr _ _ | .finalSaving addr | .done addr => some addr
  | _ => none

/-- The states of a call carry the `validation_id` of its entity. -/
structure Rows (s : Store) : Prop where
  todo : ∀ c ∈ s.calls, ∀ addr enabled todo, c.stage = .storing addr enabled todo →
    ∀ st ∈ todo, st.validationId = addr.validationId
  failed : ∀ c ∈ s.calls, ∀ todo, c.stage = .failed todo → todo = []
  written : ∀ p ∈ s.written, ∃ c addr, s.calls[p.1]? = some c ∧ settled c.stage = some addr ∧
    p.2.validationId = addr.validationId

section

variable {s s' : Store} {i : Nat} {c : StoreCall} {stage : Stage} {db : Database}
variable {state : Option IpAddrState} {ip : Text} {port : Nat} {calls : List StoreCall}

theorem Rows.keep (hr : Rows s) (hc : s.calls[i]? = some c)
    (htodo : ∀ addr enabled todo, stage = .storing addr enabled todo →
      ∀ st ∈ todo, st.validationId = addr.validationId)
    (hfailed : ∀ todo, stage = .failed todo → todo = [])
    (hsettled : ∀ addr, settled c.stage = some addr →
      ∃ addr', settled stage = some addr' ∧ addr'.validationId = addr.validationId)
    (hstate : ∀ st ∈ state, ∃ addr, settled stage = some addr ∧
      st.validationId = addr.validationId) : Rows (s.next i c db stage state) := by
  have hi : i < s.calls.length := (List.getElem?_eq_some_iff.mp hc).1
  have hself : (s.next i c db stage state).calls[i]? = some { c with stage := stage } :=
    List.getElem?_set_self hi
  refine ⟨?_, ?_, ?_⟩
  · intro d hd
    rcases List.mem_or_eq_of_mem_set hd with hd | rfl
    · exact hr.todo d hd
    · exact htodo
  · intro d hd
    rcases List.mem_or_eq_of_mem_set hd with hd | rfl
    · exact hr.failed d hd
    · exact hfailed
  · intro p hp
    rcases List.mem_append.mp hp with hp | hp
    · obtain ⟨d, addr, hd, haddr, heq⟩ := hr.written p hp
      by_cases hpi : p.1 = i
      · rw [hpi, hc] at hd
        cases hd
        obtain ⟨addr', haddr', hv⟩ := hsettled addr haddr
        rw [hpi]
        exact ⟨_, addr', hself, haddr', heq.trans hv.symm⟩
      · exact ⟨d, addr, (List.getElem?_set_ne (Ne.symm hpi)).trans hd, haddr, heq⟩
    · obtain ⟨st, hst, rfl⟩ := List.mem_map.mp hp
      obtain ⟨addr, haddr, heq⟩ := hstate st (by simpa using hst)
      exact ⟨_, addr, hself, haddr, heq⟩

theorem settled_promiseAll (addr : IpAddr) (enabled : Bool) (now : Nat)
    (todo : List IpAddrState) :
    ∃ a, settled (promiseAll addr enabled now todo) = some a ∧
      a.validationId = addr.validationId := by
  cases todo with
  | nil => exact ⟨addr.count enabled now, rfl, by simp⟩
  | cons st todo => exact ⟨addr, rfl, rfl⟩

theorem todo_promiseAll {addr a : IpAddr} {enabled e : Bool} {now : Nat}
    {todo rest : List IpAddrState} (h : promiseAll addr enabled now todo = .storing a e rest) :
    a = addr ∧ e = enabled ∧ rest = todo := by
  cases todo with
  | nil => cases h
  | cons st todo =>
      cases h
      exact ⟨rfl, rfl, rfl⟩

theorem promiseAll_ne_failed {addr : IpAddr} {enabled : Bool} {now : Nat}
    {todo rest : List IpAddrState} : promiseAll addr enabled now todo ≠ .failed rest := by
  cases todo <;> simp [promiseAll]

/-- From an entity that is not settled to the saves of the states. -/
theorem Rows.storing {addr : IpAddr} {results : JudgeResults} (hr : Rows s)
    (hc : s.calls[i]? = some c) (hsettled : settled c.stage = none) :
    Rows (s.next i c db (storing addr results c.now) none) := by
  have hsame := withProtocols_same addr results
  rw [storing_eq]
  refine hr.keep hc ?_ ?_ (by simp [hsettled]) (by simp)
  · intro a e todo h st hst
    obtain ⟨rfl, -, rfl⟩ := todo_promiseAll h
    obtain ⟨r, -, rfl⟩ := List.mem_map.mp hst
    exact hsame.validationId_eq.symm
  · exact fun todo h => absurd h promiseAll_ne_failed

/-- **Step lemma** for the states. -/
theorem Rows.next (hr : Rows s) (hrace : Race calls ip port s) (hc : s.calls[i]? = some c)
    (hnext : Next s.db c false db stage state) : Rows (s.next i c db stage state) := by
  have hmem := List.mem_of_getElem? hc
  cases hnext with
  | found h => exact hr.keep hc (by simp) (by simp) (by simp [h, settled]) (by simp)
  | duplicate addr h hsave =>
      exact hr.keep hc (by simp) (by simp) (by simp [h, settled]) (by simp)
  | saved addr db' addr' h hsave =>
      cases hresults : c.data.results with
      | none =>
          rw [Store.saved, hresults]
          exact hr.keep hc (by simp) (by simp) (by simp [h, settled]) (by simp)
      | some results =>
          rw [Store.saved, hresults]
          exact hr.keep hc (by simp) (by simp) (by simp [h, settled]) (by simp)
  | located addr results h hresults =>
      rcases located_cases addr c.data results c.now with heq | ⟨loc, heq⟩
      · rw [heq]
        exact hr.storing hc (by simp [h, settled])
      · rw [heq]
        exact hr.keep hc (by simp) (by simp) (by simp [h, settled]) (by simp)
  | savedLoc addr loc results h hresults => exact hr.storing hc (by simp [h, settled])
  | stored addr enabled todo k st h hk =>
      have htodo := hr.todo c hmem addr enabled todo h
      obtain ⟨a, ha, hv⟩ := settled_promiseAll addr enabled c.now (todo.eraseIdx k)
      refine hr.keep hc ?_ (fun todo h => absurd h promiseAll_ne_failed) ?_ ?_
      · intro b e rest hrest st' hst'
        obtain ⟨rfl, -, rfl⟩ := todo_promiseAll hrest
        exact htodo st' (List.mem_of_mem_eraseIdx hst')
      · intro b hb
        simp only [h, settled, Option.some.injEq] at hb
        exact ⟨a, ha, hb ▸ hv⟩
      · intro st' hst'
        cases hst'
        exact ⟨a, ha, (htodo st (List.mem_of_getElem? hk)).trans hv.symm⟩
  | storedLate todo k st h hk =>
      rw [hr.failed c hmem todo h] at hk
      cases hk
  | gone addr h hsave =>
      have hne := ((hrace.owns c hmem).entity_ok addr true (by rw [h]; rfl)).2.2 rfl
      exact absurd (Database.saveAddr_eq_none_iff.mp hsave).1 hne
  | counted addr db' addr' h hsave =>
      have hknows := ((hrace.owns c hmem).entity_ok addr true (by rw [h]; rfl)).2.1
      have hsaved := Database.saveAddr_saved hrace.wf hknows hsave
      refine hr.keep hc (by simp) (by simp) ?_ (by simp)
      intro b hb
      simp only [h, settled, Option.some.injEq] at hb
      refine ⟨addr', rfl, ?_⟩
      rw [hsaved.entity, hb]

theorem Rows.step {options : ValidatorOptions} {a : StoreAction} (hr : Rows s)
    (hrace : Race calls ip port s) (ha : proceeds a = true)
    (h : Store.step options s a = some s') : Rows s' := by
  rcases step_proceeds ha h with ⟨ms, -, rfl⟩ | ⟨i, c, db, stage, state, -, hc, hnext, rfl⟩
  · exact ⟨hr.todo, hr.failed, hr.written⟩
  · exact hr.next hrace hc hnext

/-- **Run lemma** for the states. -/
theorem Rows.run {options : ValidatorOptions} {t : Store} {as : List StoreAction} (hr : Rows s)
    (hrace : Race calls ip port s) (has : ∀ a ∈ as, proceeds a = true)
    (h : (machine options).run s as = some t) : Rows t := by
  have hstep : ∀ u a u', Race calls ip port u ∧ Rows u → proceeds a = true →
      (machine options).step u a = some u' → Race calls ip port u' ∧ Rows u' := by
    intro u a u' hu ha h1
    exact ⟨(refines options calls ip port).keeps u a u' hu.1 ha h1, hu.2.step hu.1 ha h1⟩
  exact ((machine options).run_invariant_on hstep ⟨hrace, hr⟩ has h).2

end

end Store

/-! ## Two calls -/

namespace Streak

/-- A verdict at `now` would begin a streak. -/
def Begins (enabled : Bool) (now : Nat) (st : Streak) : Prop :=
  if enabled then st.countSuccess = 0 ∧ st.successSinceAt.getD now = now
  else st.countErrors = 0 ∧ st.errorsSinceAt.getD now = now

theorem count_ne (enabled : Bool) (now : Nat) (st : Streak) : count enabled now st ≠ st := by
  obtain ⟨success, errors, successSince, errorsSince⟩ := st
  cases enabled <;> simp [count]

/-- One verdict alone is as good as two only if it ends the other one's
streak and begins its own. -/
theorem count_suffices_iff {ex ey : Bool} {nx ny : Nat} {st : Streak} :
    (count ey ny st = count ey ny (count ex nx st) ∨
      count ey ny st = count ex nx (count ey ny st)) ↔ ex ≠ ey ∧ st.Begins ey ny := by
  cases ex <;> cases ey <;> simp [count, Begins, eq_comm]

end Streak

namespace Store

/-- What the row of an address counts from. -/
def start (db : Database) (ip : Text) (port : Nat) : Row Streak :=
  ((db.findAddr ip port).map IpAddr.row).getD ⟨0, {}⟩

/-- Nothing of the two calls is lost from `s` to `t`. -/
structure ResultsKept (s t : Store) (x y : StoreCall) : Prop where
  row : ∃ a, t.db.findAddr x.data.ip x.data.port = some a ∧
    a.validationId = (start s.db x.data.ip x.data.port).version + 2 ∧
    (a.streak = y.after (x.after (start s.db x.data.ip x.data.port).value) ∨
      a.streak = x.after (y.after (start s.db x.data.ip x.data.port).value))
  states : ∀ p ∈ t.written, ∀ q ∈ t.written, p.1 ≠ q.1 → p.2.validationId ≠ q.2.validationId

/-- Both calls have results, their verdicts differ, and that of `y` begins
a streak. -/
def Differ (x y : StoreCall) (st : Streak) : Prop :=
  ∃ rx ry, x.data.results = some rx ∧ y.data.results = some ry ∧
    hasEnabled rx ≠ hasEnabled ry ∧ st.Begins (hasEnabled ry) y.now

/-- The second call reads behind the last save of the first; or between
its two saves, and it saves last and the verdicts differ. -/
def InTime (calls : List StoreCall) (i j : Nat) (x y : StoreCall) (st : Streak)
    (h : List (Nat × Touch)) : Prop :=
  (clients calls).Serial i j h ∨ (clients calls).Overtaken i j h ∧ Differ x y st

section

variable {x y : StoreCall} {calls : List StoreCall} {i j : Nat}

theorem apply_eq (hi : calls[i]? = some x) (st : Streak) :
    (clients calls).apply i st = x.after st := by
  simp [Clients.apply, clients, hi, StoreCall.after]

theorem suffices_iff (hi : calls[i]? = some x) (hj : calls[j]? = some y)
    (hx : (clients calls).update i ≠ none) (st : Streak) :
    (clients calls).Suffices i j st ↔ Differ x y st := by
  simp only [Clients.Suffices, apply_eq hi, apply_eq hj]
  simp only [clients, hi, Option.bind_some, StoreCall.update] at hx
  cases hrx : x.data.results with
  | none => simp [hrx] at hx
  | some rx =>
      cases hry : y.data.results with
      | none =>
          have hne := Streak.count_ne (hasEnabled rx) x.now st
          simp [StoreCall.after, StoreCall.update, hrx, hry, Differ, hne.symm]
      | some ry =>
          simp [StoreCall.after, StoreCall.update, hrx, hry, Differ, Streak.count_suffices_iff]

end

theorem phase_isOver {c : StoreCall} (h : isOver c.stage = true) : c.phase.isOver = true := by
  obtain ⟨data, now, stage⟩ := c
  cases stage <;> simp [isOver] at h <;> rfl

section

variable {options : ValidatorOptions} {s t : Store} {as : List StoreAction} {x y : StoreCall}

/-- Two calls that have been made. One that is made later is one that
waits longer for its lookup. -/
structure Called (s : Store) (x y : StoreCall) : Prop where
  calls_eq : s.calls = [x, y]
  left : x.stage = .finding
  right : y.stage = .finding
  ip_eq : y.data.ip = x.data.ip
  port_eq : y.data.port = x.data.port
  written_eq : s.written = []

theorem Called.race (h : Called s x y) (hwf : s.db.Wf) :
    Race [x, y] x.data.ip x.data.port s := by
  refine ⟨hwf, by rw [h.calls_eq], ?_⟩
  intro c hc
  rw [h.calls_eq] at hc
  rcases List.mem_cons.mp hc with rfl | hc
  · exact ⟨rfl, rfl, by simp [h.left, entity]⟩
  · rw [List.mem_singleton.mp hc]
    exact ⟨h.ip_eq, h.port_eq, by simp [h.right, entity]⟩

theorem Called.finding (h : Called s x y) : ∀ c ∈ s.calls, c.stage = .finding := by
  rw [h.calls_eq]
  simp [h.left, h.right]

theorem Called.rows (h : Called s x y) : Rows s := by
  refine ⟨?_, ?_, by simp [h.written_eq]⟩
  · intro c hc addr enabled todo hstage
    simp [h.finding c hc] at hstage
  · intro c hc todo hstage
    simp [h.finding c hc] at hstage

theorem Called.at_fresh (h : Called s x y) (ip : Text) (port : Nat) :
    Clients.At 0 1 ((s.db.findAddr ip port).map IpAddr.row) .fresh .fresh (table ip port s) := by
  refine ⟨rfl, ?_, ?_, ?_⟩
  · simp [table, h.calls_eq, StoreCall.phase, h.left]
  · simp [table, h.calls_eq, StoreCall.phase, h.right]
  · intro i h0 h1
    have hnone : s.calls[i]? = none := by
      rw [h.calls_eq, List.getElem?_eq_none_iff]
      simp
      omega
    simp [table, hnone, Phase.isOver]

theorem table_isOver (hover : ∀ c ∈ t.calls, isOver c.stage = true) (ip : Text) (port i : Nat) :
    ((table ip port t).phase i).isOver = true := by
  cases hc : t.calls[i]? with
  | none => simp [table, hc, Phase.isOver]
  | some c =>
      rw [table_phase ip port hc]
      exact phase_isOver (hover c (List.mem_of_getElem? hc))

theorem row_kept_iff {ip : Text} {port : Nat} {b : Row Streak} :
    (clients [x, y]).Kept 0 1 b (table ip port t).row ↔
      ∃ a, t.db.findAddr ip port = some a ∧ a.validationId = b.version + 2 ∧
        (a.streak = y.after (x.after b.value) ∨ a.streak = x.after (y.after b.value)) := by
  have hx : ∀ st, (clients [x, y]).apply 0 st = x.after st := apply_eq rfl
  have hy : ∀ st, (clients [x, y]).apply 1 st = y.after st := apply_eq rfl
  simp only [Clients.Kept, hx, hy]
  cases hfind : t.db.findAddr ip port <;> simp [table, hfind, IpAddr.row]

theorem keptBy_iff {i j : Nat} {b c : StoreCall} {st : Streak} {h : List (Nat × Touch)}
    {u v : Table Nat Streak} (hi : [x, y][i]? = some b) (hj : [x, y][j]? = some c)
    (hfresh : u.phase i = .fresh) (hrun : (clients [x, y]).machine.run u h = some v) :
    (clients [x, y]).KeptBy i j st h ↔ InTime [x, y] i j b c st h := by
  refine or_congr_right (and_congr_right ?_)
  intro ho
  exact suffices_iff hi hj (ho.update_ne hfresh hrun) st

/-- The states carry two ids if the calls have taken two. -/
theorem states_differ {v w : Nat} {ip : Text} {port : Nat} (hr : Rows t) (hvw : v ≠ w)
    (hlen : t.calls.length = 2) (h0 : (table ip port t).phase 0 = .done v)
    (h1 : (table ip port t).phase 1 = .done w) :
    ∀ p ∈ t.written, ∀ q ∈ t.written, p.1 ≠ q.1 → p.2.validationId ≠ q.2.validationId := by
  have hof : ∀ p ∈ t.written, ∀ u, (table ip port t).phase p.1 = .done u →
      p.2.validationId = u := by
    intro p hp u hu
    obtain ⟨c, addr, hc, hsettled, hv⟩ := hr.written p hp
    rw [table_phase ip port hc] at hu
    obtain ⟨data, now, stage⟩ := c
    cases stage <;> simp [settled, StoreCall.phase] at hsettled hu
    rw [hv, ← hu, hsettled]
  have hlt : ∀ p ∈ t.written, p.1 = 0 ∨ p.1 = 1 := by
    intro p hp
    obtain ⟨c, -, hc, -⟩ := hr.written p hp
    have := (List.getElem?_eq_some_iff.mp hc).1
    omega
  intro p hp q hq hpq
  rcases hlt p hp with hp0 | hp1 <;> rcases hlt q hq with hq0 | hq1
  · exact absurd (hp0.trans hq0.symm) hpq
  · rw [hof p hp v (by rw [hp0, h0]), hof q hq w (by rw [hq1, h1])]
    exact hvw
  · rw [hof p hp w (by rw [hp1, h1]), hof q hq v (by rw [hq0, h0])]
    exact hvw.symm
  · exact absurd (hp1.trans hq1.symm) hpq

theorem run_calls_length (has : ∀ a ∈ as, proceeds a = true)
    (h : (machine options).run s as = some t) : t.calls.length = s.calls.length := by
  have hstep : ∀ u a u', u.calls.length = s.calls.length → proceeds a = true →
      (machine options).step u a = some u' → u'.calls.length = s.calls.length := by
    intro u a u' hu ha h1
    rcases step_proceeds ha h1 with ⟨ms, -, rfl⟩ | ⟨i, c, db, stage, state, -, -, -, rfl⟩
    · exact hu
    · exact List.length_set.trans hu
  exact (machine options).run_invariant_on hstep rfl has h

/-- **Two calls**: in every interleaving of two `store` calls for one
address, nothing is lost if and only if the second one was in time. -/
theorem resultsKept_iff (hwf : s.db.Wf) (hcalled : Called s x y)
    (has : ∀ a ∈ as, proceeds a = true) (h : (machine options).run s as = some t)
    (hover : ∀ c ∈ t.calls, isOver c.stage = true) :
    ResultsKept s t x y ↔
      InTime [x, y] 0 1 x y (start s.db x.data.ip x.data.port).value (history options s as) ∨
        InTime [x, y] 1 0 y x (start s.db x.data.ip x.data.port).value
          (history options s as) := by
  have hrace := hcalled.race hwf
  have hrun := (refines options [x, y] x.data.ip x.data.port).run hrace has h
  have hat := hcalled.at_fresh x.data.ip x.data.port
  have hover0 := table_isOver hover x.data.ip x.data.port 0
  have hover1 := table_isOver hover x.data.ip x.data.port 1
  have hkept := Clients.kept_iff hat (by decide) hrun hover0 hover1
  have h01 : ∀ st, (clients [x, y]).KeptBy 0 1 st (history options s as) ↔
      InTime [x, y] 0 1 x y st (history options s as) :=
    fun _ => keptBy_iff rfl rfl hat.left hrun
  have h10 : ∀ st, (clients [x, y]).KeptBy 1 0 st (history options s as) ↔
      InTime [x, y] 1 0 y x st (history options s as) :=
    fun _ => keptBy_iff rfl rfl hat.right hrun
  rw [← h01, ← h10]
  refine Iff.trans ?_ hkept
  constructor
  · intro hkept
    exact row_kept_iff.mpr hkept.row
  · intro hrow
    obtain ⟨v, w, hvw, h0, h1⟩ := Clients.versions_of_kept hat (by decide) hrun hover0 hover1 hrow
    refine ⟨row_kept_iff.mp hrow, ?_⟩
    have hlen : t.calls.length = 2 := by
      rw [run_calls_length has h, hcalled.calls_eq]
      rfl
    exact states_differ (hcalled.rows.run hrace has h) hvw hlen h0 h1

end

def callAt (now : Nat) : StoreCall := ⟨knownData working, now, .finding⟩

/-- Two calls for a known address, each with a result that is enabled. -/
def twoCalls : Store :=
  { db := knownDb, clock := 6, calls := [callAt 5, callAt 6] }

theorem twoCalls_called : Called twoCalls (callAt 5) (callAt 6) :=
  ⟨rfl, rfl, rfl, rfl, rfl, rfl⟩

/-- One call behind the other. -/
theorem resultsKept_serial :
    ResultsKept twoCalls (((machine {}).run twoCalls (alone 0 ++ alone 1)).getD {})
      (callAt 5) (callAt 6) := by
  have hrun : (machine {}).run twoCalls (alone 0 ++ alone 1) =
      some (((machine {}).run twoCalls (alone 0 ++ alone 1)).getD {}) := by decide
  have hserial : history {} twoCalls (alone 0 ++ alone 1) =
      (clients [callAt 5, callAt 6]).touches 0 ++ (clients [callAt 5, callAt 6]).touches 1 := by
    decide
  exact (resultsKept_iff knownDb_wf twoCalls_called (by decide) hrun (by decide)).mpr
    (.inl (.inl hserial))

/-- Both calls read before either has saved. -/
def bothRead : List StoreAction := .go 0 :: .go 1 :: ((alone 0).tail ++ (alone 1).tail)

/-- Both calls take `validation_id` 2, and one success is not counted. -/
theorem not_resultsKept_bothRead :
    (machine {}).run twoCalls bothRead = some (((machine {}).run twoCalls bothRead).getD {}) ∧
      (∀ c ∈ (((machine {}).run twoCalls bothRead).getD {}).calls, isOver c.stage = true) ∧
      ¬ ResultsKept twoCalls (((machine {}).run twoCalls bothRead).getD {})
        (callAt 5) (callAt 6) := by
  refine ⟨by decide, by decide, ?_⟩
  rintro ⟨⟨a, ha, hversion, -⟩, -⟩
  have hlost : ((((machine {}).run twoCalls bothRead).getD {}).db.findAddr ['x'] 80).map
      (·.validationId) = some 2 := by decide
  have hstart : (start twoCalls.db (callAt 5).data.ip (callAt 5).data.port).version = 1 := by decide
  rw [hstart] at hversion
  have hfound : (((machine {}).run twoCalls bothRead).getD {}).db.findAddr ['x'] 80 = some a := ha
  rw [hfound] at hlost
  simp [hversion] at hlost

end Store

end ProxyBroker.Proxy.Storage
