/-
ProxyBroker.Proxy.LostReportsTheorems — which runs of overlapping `doLog`
calls keep all reports.

To the calls for one address and source protocol the rotate row is a
cell that they read and write without a lock: the transaction around the
two does not keep others out. So the rotator refines the machine of the
lost update, with the row as the cell and the suspended calls as its
clients, and what is known there holds here: the counters are right if
and only if no call commits while another one has read the row.
-/
import ProxyBroker.Lib.LostUpdate
import ProxyBroker.Proxy.UsageTheorems

namespace ProxyBroker.Proxy

open Lib Server

namespace Rotator

variable {options : RotatorOptions} {addr : AddrRow} {p : ProtocolType}

/-! ## The row as a cell -/

/-- What a report makes of the row, if there is one. -/
def updateRow (addr : AddrRow) (p : ProtocolType) (ip : ProxyUsed) (rotate : Option IpRotate) :
    Option IpRotate :=
  some (logRotate ip (rotate.getD { protocolSrc := p, addrId := addr.id }))

def phaseOf : LogStage → Phase (Option IpRotate)
  | .called => .waiting
  | .read _ rotate => .read rotate
  | .committed _ _ => .written

def clientOf (call : LogCall) : Client ProxyUsed (Option IpRotate) :=
  { update := call.used, phase := phaseOf call.stage }

def cellOf (addr : AddrRow) (p : ProtocolType) (s : Rotator) :
    Cell ProxyUsed (Option IpRotate) :=
  { value := s.findRotate addr.id p, clients := s.logs.map clientOf }

/-- What the next part of a call is for the cell. -/
def cellGo (s : Rotator) (i : Nat) (call : LogCall) : CellAction ProxyUsed :=
  match call.stage with
  | .called => .read i
  | .read addrId rotate => if s.refused call addrId rotate then .reject i else .write i
  | .committed _ _ => .leave i

def cellAction (s : Rotator) : Action → Option (CellAction ProxyUsed)
  | .doLog ip _ => some (.start ip)
  | .logGo i => s.logs[i]?.map (cellGo s i)
  | .logFail i => some (.drop i)
  | _ => none

/-- A report on the address `addr`, used by protocol `p`. -/
def ReportFor (addr : AddrRow) (p : ProtocolType) (ip : ProxyUsed) : Prop :=
  ip.ip = addr.ip ∧ ip.port = addr.port ∧ ip.protocol = p

/-- All calls are for one address and source protocol. -/
def CallFor (addr : AddrRow) (p : ProtocolType) : Action → Prop
  | .doLog ip _ => ReportFor addr p ip
  | _ => True

/-- What a suspended call knows. -/
def StageFor (addr : AddrRow) (p : ProtocolType) (s : Rotator) : LogStage → Prop
  | .read addrId rotate =>
      addrId = addr.id ∧ (∀ r ∈ rotate, r.addrId = addr.id ∧ r.protocolSrc = p) ∧
        (rotate.isSome = true → (s.findRotate addr.id p).isSome = true)
  | _ => True

structure OneKey (addr : AddrRow) (p : ProtocolType) (s : Rotator) : Prop where
  address : ∃ row, s.findAddr addr.ip addr.port = some row ∧ row.id = addr.id
  calls : ∀ call ∈ s.logs, ReportFor addr p call.used ∧ StageFor addr p s call.stage

/-! ## Refinement -/

/-- Steps of other methods than `doLog` do not touch the tables. -/
theorem step_quiet {s s' : Rotator} {a : Action} (h : step options s a = some s')
    (ha : cellAction s a = none) :
    s'.rotates = s.rotates ∧ s'.addrs = s.addrs ∧ s'.logs = s.logs := by
  cases a with
  | tick ms => cases h; exact ⟨rfl, rfl, rfl⟩
  | take selector elapsed =>
      cases h
      cases hf : s.found selector with
      | none => rw [take_of_not_found options hf, updateList_rest]; exact ⟨rfl, rfl, rfl⟩
      | some e => rw [take_of_found options hf, updateList_rest]; exact ⟨rfl, rfl, rfl⟩
  | doSucceeded w =>
      cases h
      unfold doSucceeded
      dsimp only
      split <;> exact ⟨rfl, rfl, rfl⟩
  | doLog ip test => cases ha
  | logGo i =>
      obtain ⟨call, hcall, -⟩ := Option.map_eq_some_iff.mp h
      simp [cellAction, hcall] at ha
  | logFail i => cases ha
  | onEmpty => cases h; exact ⟨rfl, rfl, rfl⟩
  | removeUnusedProxies => cases h; exact ⟨rfl, rfl, rfl⟩

/-- The calls that stay know what they knew, and rows are never deleted. -/
theorem OneKey.of_calls {s s' : Rotator} (h : OneKey addr p s)
    (haddr : ∃ row, s'.findAddr addr.ip addr.port = some row ∧ row.id = addr.id)
    (hrow : (s.findRotate addr.id p).isSome = true → (s'.findRotate addr.id p).isSome = true)
    (hlogs : ∀ call ∈ s'.logs,
      call ∈ s.logs ∨ ReportFor addr p call.used ∧ StageFor addr p s' call.stage) :
    OneKey addr p s' := by
  refine ⟨haddr, ?_⟩
  intro call hcall
  rcases hlogs call hcall with hold | hnew
  · obtain ⟨hreport, hstage⟩ := h.calls call hold
    refine ⟨hreport, ?_⟩
    cases hs : call.stage with
    | called => trivial
    | read addrId rotate =>
        rw [hs] at hstage
        exact ⟨hstage.1, hstage.2.1, fun hr => hrow (hstage.2.2 hr)⟩
    | committed rotate remove => trivial
  · exact hnew

theorem OneKey.of_tables {s s' : Rotator} (h : OneKey addr p s) (hrotates : s'.rotates = s.rotates)
    (haddrs : s'.addrs = s.addrs)
    (hlogs : ∀ call ∈ s'.logs,
      call ∈ s.logs ∨ ReportFor addr p call.used ∧ StageFor addr p s' call.stage) :
    OneKey addr p s' := by
  refine h.of_calls ?_ ?_ hlogs
  · rw [findAddr, haddrs]
    exact h.address
  · rw [findRotate, findRotate, hrotates]
    exact id

/-- The clients of the cell are the calls, one by one. -/
theorem clients_getElem? {s : Rotator} {i : Nat} {call : LogCall} (h : s.logs[i]? = some call) :
    (cellOf addr p s).clients[i]? = some (clientOf call) := by
  simp [cellOf, h]

/-- What a step has to show: the invariant, and the step of the cell. -/
def StepFor (addr : AddrRow) (p : ProtocolType) (s s' : Rotator) (b : CellAction ProxyUsed) :
    Prop :=
  OneKey addr p s' ∧ Cell.step (updateRow addr p) (cellOf addr p s) b = some (cellOf addr p s')

/-- A call ends and the tables stay what they are. -/
theorem OneKey.end {s s' : Rotator} {i : Nat} (h : OneKey addr p s)
    (hrotates : s'.rotates = s.rotates) (haddrs : s'.addrs = s.addrs)
    (hlogs : s'.logs = s.logs.eraseIdx i) :
    OneKey addr p s' ∧ cellOf addr p s' =
      { cellOf addr p s with clients := (cellOf addr p s).clients.eraseIdx i } := by
  refine ⟨h.of_tables hrotates haddrs ?_, ?_⟩
  · intro call hcall
    rw [hlogs] at hcall
    exact .inl (List.mem_of_mem_eraseIdx hcall)
  · rw [cellOf, cellOf, findRotate, findRotate, hrotates, hlogs, List.eraseIdx_map]

theorem stepFor_called {s : Rotator} {i : Nat} {call : LogCall} (h : OneKey addr p s)
    (hcall : s.logs[i]? = some call) (hstage : call.stage = .called) :
    StepFor addr p s (s.logRead i call) (.read i) := by
  obtain ⟨⟨hip, hport, hproto⟩, -⟩ := h.calls call (List.mem_of_getElem? hcall)
  obtain ⟨row, hrow, hid⟩ := h.address
  rw [← hip, ← hport] at hrow
  rw [logRead_of_found i hrow, hid, hproto]
  refine ⟨h.of_tables rfl rfl ?_, ?_⟩
  · intro other hother
    rcases List.mem_or_eq_of_mem_set hother with hold | rfl
    · exact .inl hold
    · exact .inr ⟨⟨hip, hport, hproto⟩, rfl, fun r hr => findRotate_key hr, fun hr => hr⟩
  · have hclient : (cellOf addr p s).clients[i]? = some ⟨call.used, .waiting⟩ := by
      rw [clients_getElem? hcall, clientOf, hstage, phaseOf]
    rw [Cell.step_read hclient]
    simp [cellOf, setLog, List.map_set, clientOf, phaseOf, findRotate]

theorem stepFor_read {s : Rotator} {i : Nat} {call : LogCall} {addrId : Nat}
    {rotate : Option IpRotate} (h : OneKey addr p s) (hcall : s.logs[i]? = some call)
    (hstage : call.stage = .read addrId rotate) :
    StepFor addr p s (s.logCommit i call addrId rotate)
      (if s.refused call addrId rotate then .reject i else .write i) := by
  have hcalls := h.calls call (List.mem_of_getElem? hcall)
  rw [hstage] at hcalls
  obtain ⟨⟨hip, hport, rfl⟩, rfl, hkey, hrow⟩ := hcalls
  obtain ⟨hid, hproto⟩ := savedRotate_key hkey
  have hclient : (cellOf addr call.used.protocol s).clients[i]? =
      some ⟨call.used, .read rotate⟩ := by
    rw [clients_getElem? hcall, clientOf, hstage, phaseOf]
  have hany : s.refused call addr.id rotate =
      (rotate.isNone && (s.findRotate addr.id call.used.protocol).isSome) := by
    rw [refused, any_isRowOf, hid, hproto]
  cases hrefused : s.refused call addr.id rotate with
  | true =>
      rw [logCommit_of_refused hrefused, if_pos rfl]
      have hend : OneKey addr call.used.protocol (s.endLog i) ∧ _ := h.end rfl rfl rfl
      refine ⟨hend.1, ?_⟩
      rw [hend.2, Cell.step_reject hclient]
      rintro rfl
      rw [hany] at hrefused
      cases hf : s.findRotate addr.id call.used.protocol <;> simp [cellOf, hf] at hrefused
  | false =>
      have hsame : (s.findRotate addr.id call.used.protocol).isSome = rotate.isSome := by
        rw [hany] at hrefused
        cases rotate with
        | none => simpa using hrefused
        | some r => exact hrow rfl
      have hfind := logCommit_findRotate i hkey hsame
      obtain ⟨-, -, hlogs⟩ := logCommit_of_accepted i hrefused
      rw [if_neg Bool.false_ne_true]
      refine ⟨h.of_calls ?_ ?_ ?_, ?_⟩
      · obtain ⟨row, hfound, hrowid⟩ := h.address
        refine ⟨_, by rw [logCommit_findAddr i hrefused, hfound, Option.map_some], ?_⟩
        rw [(blockedBy_blocked addr.id _ hrowid).2.2, hrowid]
      · rw [hfind]
        exact fun _ => rfl
      · intro other hother
        rw [hlogs] at hother
        rcases List.mem_or_eq_of_mem_set hother with hold | rfl
        · exact .inl hold
        · exact .inr ⟨⟨hip, hport, rfl⟩, trivial⟩
      · rw [Cell.step_write hclient]
        simp [cellOf, hfind, hlogs, List.map_set, clientOf, phaseOf, updateRow, savedRotate]

theorem stepFor_committed {s : Rotator} {i : Nat} {call : LogCall} {rotate : IpRotate}
    {remove : Bool} (h : OneKey addr p s) (hcall : s.logs[i]? = some call)
    (hstage : call.stage = .committed rotate remove) :
    StepFor addr p s (s.logSettle i call rotate remove) (.leave i) := by
  obtain ⟨hrotates, haddrs, hlogs⟩ := logSettle_tables s i call rotate remove
  obtain ⟨hkeep, hcell⟩ := h.end hrotates haddrs hlogs
  have hclient : (cellOf addr p s).clients[i]? = some ⟨call.used, .written⟩ := by
    rw [clients_getElem? hcall, clientOf, hstage, phaseOf]
  refine ⟨hkeep, ?_⟩
  rw [hcell, Cell.step_leave hclient]

theorem stepFor_failed {s s' : Rotator} {i : Nat} (h : OneKey addr p s)
    (hstep : step options s (.logFail i) = some s') : StepFor addr p s s' (.drop i) := by
  obtain ⟨call, hcall, hstage⟩ :
      ∃ call, s.logs[i]? = some call ∧ (clientOf call).phase ≠ .written := by
    simp only [step] at hstep
    split at hstep
    · cases hstep
    · cases hstep
    · rename_i call hcommitted hcall
      refine ⟨call, hcall, ?_⟩
      obtain ⟨ip, entry, stage⟩ := call
      cases stage with
      | committed rotate remove => exact absurd rfl (hcommitted ip entry rotate remove)
      | called => simp [clientOf, phaseOf]
      | read addrId rotate => simp [clientOf, phaseOf]
  rw [logFail_spec hstep]
  have hend : OneKey addr p (s.endLog i) ∧ _ := h.end rfl rfl rfl
  refine ⟨hend.1, ?_⟩
  rw [hend.2, Cell.step_drop (clients_getElem? hcall) hstage]

theorem stepFor_of_step {s s' : Rotator} {a : Action} {b : CellAction ProxyUsed}
    (h : OneKey addr p s) (hfor : CallFor addr p a) (hstep : step options s a = some s')
    (hact : cellAction s a = some b) : StepFor addr p s s' b := by
  cases a with
  | doLog ip test =>
      cases hact
      cases hstep
      refine ⟨h.of_tables rfl rfl ?_, ?_⟩
      · intro call hcall
        rcases List.mem_append.mp hcall with hold | hnew
        · exact .inl hold
        · rw [List.mem_singleton.mp hnew]
          exact .inr ⟨hfor, trivial⟩
      · simp [Cell.step, cellOf, logCall, clientOf, phaseOf, findRotate]
  | logGo i =>
      obtain ⟨call, hcall, rfl⟩ := Option.map_eq_some_iff.mp hstep
      rw [cellAction, hcall, Option.map_some, Option.some.injEq] at hact
      subst hact
      unfold cellGo logGo
      cases hstage : call.stage with
      | called => exact stepFor_called h hcall hstage
      | read addrId rotate => exact stepFor_read h hcall hstage
      | committed rotate remove => exact stepFor_committed h hcall hstage
  | logFail i =>
      cases hact
      exact stepFor_failed h hstep
  | _ => cases hact

/-- **Refinement**: the rotator is the machine of the lost update, as
long as all calls are for one address and source protocol. -/
theorem refines_cell (options : RotatorOptions) (addr : AddrRow) (p : ProtocolType) :
    (machine options).Refines (Cell.machine (updateRow addr p)) (cellOf addr p) cellAction
      (OneKey addr p) (CallFor addr p) := by
  have hone : ∀ s a s', OneKey addr p s → CallFor addr p a → step options s a = some s' →
      OneKey addr p s' ∧ (Cell.machine (updateRow addr p)).run (cellOf addr p s)
        (cellAction s a).toList = some (cellOf addr p s') := by
    intro s a s' hs hfor hstep
    cases hact : cellAction s a with
    | none =>
        obtain ⟨hrotates, haddrs, hlogs⟩ := step_quiet hstep hact
        refine ⟨hs.of_tables hrotates haddrs (fun call hcall => .inl (hlogs ▸ hcall)), ?_⟩
        simp [cellOf, findRotate, hrotates, hlogs]
    | some b =>
        obtain ⟨hkeep, hcell⟩ := stepFor_of_step hs hfor hstep hact
        refine ⟨hkeep, ?_⟩
        simpa [Machine.run, Cell.machine] using hcell
  exact ⟨fun s a s' hs hfor hstep => (hone s a s' hs hfor hstep).1,
    fun s a s' hs hfor hstep => (hone s a s' hs hfor hstep).2⟩

/-! ## The counters of the row -/

/-- A number of the row that counts reports. -/
def rowCounter (addr : AddrRow) (p : ProtocolType) (value : IpRotate → Nat)
    (counts : ProxyUsed → Bool)
    (hfresh : value { protocolSrc := p, addrId := addr.id } = 0)
    (hstep : ∀ ip r, value (logRotate ip r) = value r + (counts ip).toNat) :
    Cell.Counter (updateRow addr p) where
  value rotate := (rotate.map value).getD 0
  counts := counts
  value_update ip rotate := by
    cases rotate with
    | none => simp [updateRow, hstep, hfresh]
    | some r => simp [updateRow, hstep]

def incCounter (addr : AddrRow) (p : ProtocolType) : Cell.Counter (updateRow addr p) :=
  rowCounter addr p IpRotate.inc (fun _ => true) rfl (by
    intro ip r
    unfold logRotate
    split <;> rfl)

def successCounter (addr : AddrRow) (p : ProtocolType) : Cell.Counter (updateRow addr p) :=
  rowCounter addr p IpRotate.successes (fun ip => ip.success) rfl (by
    intro ip r
    cases h : ip.success with
    | true => exact (logRotate_success h r).2.1
    | false => exact (logRotate_error h r).2.1)

def errorCounter (addr : AddrRow) (p : ProtocolType) : Cell.Counter (updateRow addr p) :=
  rowCounter addr p IpRotate.errors (fun ip => !ip.success) rfl (by
    intro ip r
    cases h : ip.success with
    | true => exact (logRotate_success h r).2.2.1
    | false => exact (logRotate_error h r).2.2.1)

/-! ## Whole runs -/

/-- The call has read the row and has not committed. -/
def hasRead (call : LogCall) : Bool :=
  match call.stage with
  | .read _ _ => true
  | _ => false

/-- No call commits while another one has read the row, and none is
broken off by the database. -/
def Undisturbed (s : Rotator) : Action → Prop
  | .logGo i =>
      ∀ call ∈ s.logs[i]?, hasRead call = true → ∀ other ∈ s.logs.eraseIdx i, hasRead other = false
  | .logFail _ => False
  | _ => True

instance (s : Rotator) : ∀ a, Decidable (Undisturbed s a)
  | .logGo i => inferInstanceAs (Decidable (∀ call ∈ s.logs[i]?, _))
  | .logFail _ => inferInstanceAs (Decidable False)
  | .tick _ | .take _ _ | .doSucceeded _ | .doLog _ _ | .onEmpty | .removeUnusedProxies =>
      inferInstanceAs (Decidable True)

def isReport (which : ProxyUsed → Bool) : Action → Bool
  | .doLog ip _ => which ip
  | _ => false

/-- The reports of a run that `which` holds for. -/
def reportCount (which : ProxyUsed → Bool) (as : List Action) : Nat := as.countP (isReport which)

/-- The row of `t` has grown, since `s`, by the reports of the run. -/
structure ReportsKept (addr : AddrRow) (p : ProtocolType) (as : List Action) (s t : Rotator) :
    Prop where
  stored : 0 < reportCount (fun _ => true) as → (t.findRotate addr.id p).isSome = true
  inc : (t.rotateRow addr p).inc = (s.rotateRow addr p).inc + reportCount (fun _ => true) as
  successes : (t.rotateRow addr p).successes =
    (s.rotateRow addr p).successes + reportCount (fun ip => ip.success) as
  errors : (t.rotateRow addr p).errors =
    (s.rotateRow addr p).errors + reportCount (fun ip => !ip.success) as

theorem undisturbed_cell (s : Rotator) (a : Action) :
    Undisturbed s a ↔ ∀ b ∈ cellAction s a, Cell.Undisturbed (cellOf addr p s) b := by
  have hothers : ∀ i, (∀ c ∈ (cellOf addr p s).clients.eraseIdx i, Cell.hasRead c = false) ↔
      ∀ other ∈ s.logs.eraseIdx i, hasRead other = false := by
    intro i
    rw [cellOf, List.eraseIdx_map, List.forall_mem_map]
    refine forall₂_congr ?_
    intro call _
    unfold clientOf Cell.hasRead hasRead
    cases call.stage <;> rfl
  cases a with
  | logGo i =>
      cases hcall : s.logs[i]? with
      | none => simp [Undisturbed, cellAction, hcall]
      | some call =>
          cases hstage : call.stage with
          | called =>
              simp [Undisturbed, cellAction, hcall, cellGo, hstage, hasRead, Cell.Undisturbed]
          | committed rotate remove =>
              simp [Undisturbed, cellAction, hcall, cellGo, hstage, hasRead, Cell.Undisturbed]
          | read addrId rotate =>
              have hgo : Cell.Undisturbed (cellOf addr p s) (cellGo s i call) ↔
                  ∀ other ∈ s.logs.eraseIdx i, hasRead other = false := by
                rw [← hothers, cellGo, hstage]
                dsimp only
                split <;> exact Iff.rfl
              simp [Undisturbed, cellAction, hcall, hgo, hasRead, hstage]
  | logFail i => simp [Undisturbed, cellAction, Cell.Undisturbed]
  | doLog ip test => simp [Undisturbed, cellAction, Cell.Undisturbed]
  | _ => simp [Undisturbed, cellAction]

section

variable {value : IpRotate → Nat} {counts : ProxyUsed → Bool}
  {hfresh : value { protocolSrc := p, addrId := addr.id } = 0}
  {hstep : ∀ ip r, value (logRotate ip r) = value r + (counts ip).toNat}

theorem countP_starts {s t : Rotator} {as : List Action} (h : (machine options).run s as = some t) :
    ((machine options).trace cellAction s as).countP
      (rowCounter addr p value counts hfresh hstep).starts = reportCount counts as := by
  refine Machine.countP_trace ?_ h
  intro s a
  cases a with
  | doLog ip test =>
      cases hc : counts ip <;>
        simp [cellAction, isReport, Cell.Counter.starts, rowCounter, hc]
  | logGo i =>
      cases hcall : s.logs[i]? with
      | none => simp [cellAction, hcall, isReport]
      | some call =>
          have hgo : (rowCounter addr p value counts hfresh hstep).starts (cellGo s i call) =
              false := by
            unfold cellGo
            split
            · rfl
            · split <;> rfl
            · rfl
          simp [cellAction, hcall, isReport, hgo]
  | logFail i => simp [cellAction, isReport, Cell.Counter.starts]
  | _ => rfl

theorem value_rotateRow (s : Rotator) :
    (rowCounter addr p value counts hfresh hstep).value (cellOf addr p s).value =
      value (s.rotateRow addr p) := by
  unfold rowCounter cellOf rotateRow
  cases s.findRotate addr.id p with
  | none => exact hfresh.symm
  | some r => rfl

end

theorem OneKey.fresh {s : Rotator} (hidle : s.logs = [])
    (haddr : s.findAddr addr.ip addr.port = some addr) : OneKey addr p s where
  address := ⟨addr, haddr, rfl⟩
  calls := by
    rw [hidle]
    exact fun call hcall => absurd hcall List.not_mem_nil

theorem cellOf_idle {s : Rotator} (h : s.logs = []) :
    cellOf addr p s = ⟨(cellOf addr p s).value, []⟩ := by
  rw [cellOf, h, List.map_nil]

/-- **No report is lost** in exactly the undisturbed runs. -/
theorem reportsKept_iff_undisturbed {s t : Rotator} {as : List Action}
    (haddr : s.findAddr addr.ip addr.port = some addr) (hidle : s.logs = [])
    (hfor : ∀ a ∈ as, CallFor addr p a) (hrun : (machine options).run s as = some t)
    (hdone : t.logs = []) :
    ReportsKept addr p as s t ↔ (machine options).Along Undisturbed s as := by
  have hinv : OneKey addr p s := OneKey.fresh hidle haddr
  have hcell := (refines_cell options addr p).run hinv hfor hrun
  rw [cellOf_idle hidle, cellOf_idle hdone] at hcell
  rw [(refines_cell options addr p).along (fun s a _ _ => undisturbed_cell s a) hinv hfor hrun,
    cellOf_idle hidle]
  constructor
  · intro hkept
    refine (Cell.Counter.total_iff_undisturbed (incCounter addr p) (fun _ => rfl) hcell).mp ?_
    rw [incCounter, value_rotateRow, value_rotateRow, countP_starts hrun]
    exact hkept.inc
  · intro hok
    have hinc := Cell.Counter.total_of_undisturbed (incCounter addr p) hok hcell
    have hsuccesses := Cell.Counter.total_of_undisturbed (successCounter addr p) hok hcell
    have herrors := Cell.Counter.total_of_undisturbed (errorCounter addr p) hok hcell
    rw [incCounter, value_rotateRow, value_rotateRow, countP_starts hrun] at hinc
    rw [successCounter, value_rotateRow, value_rotateRow, countP_starts hrun] at hsuccesses
    rw [errorCounter, value_rotateRow, value_rotateRow, countP_starts hrun] at herrors
    refine ⟨?_, hinc, hsuccesses, herrors⟩
    intro hpos
    cases hf : t.findRotate addr.id p with
    | some r => rfl
    | none =>
        have hzero : (t.rotateRow addr p).inc = 0 := by rw [rotateRow, hf, Option.getD_none]
        omega

/-- Two calls; each reads the row behind the commit of the other. -/
def apart : List Action :=
  [.doLog (exampleReport 30 true) false, .doLog (exampleReport 7 false) false, .logGo 0, .logGo 0,
    .logGo 1, .logGo 1, .logGo 0, .logGo 0]

theorem reportsKept_apart :
    ReportsKept theAddress .http apart oneAddress (after {} oneAddress apart) :=
  (reportsKept_iff_undisturbed (by decide) rfl
    (by simp [apart, CallFor, ReportFor, exampleReport, theAddress]) rfl rfl).mpr
      (by decide : (machine {}).Along Undisturbed oneAddress apart)

/-- Both read that there is no row; the second insert is rejected. -/
def overlapping : List Action :=
  [.doLog (exampleReport 30 true) false, .doLog (exampleReport 7 false) false, .logGo 0, .logGo 1,
    .logGo 0, .logGo 1, .logGo 0]

/-- Two calls have returned, one report is in the row. -/
theorem report_lost :
    (∀ a ∈ overlapping, CallFor theAddress .http a) ∧
      (machine {}).run oneAddress overlapping = some (after {} oneAddress overlapping) ∧
      (after {} oneAddress overlapping).logs = [] ∧
      ¬ ReportsKept theAddress .http overlapping oneAddress (after {} oneAddress overlapping) := by
  refine ⟨?_, rfl, rfl, ?_⟩
  · simp [overlapping, CallFor, ReportFor, exampleReport, theAddress]
  · intro h
    exact absurd h.inc (by decide)

end Rotator

end ProxyBroker.Proxy
