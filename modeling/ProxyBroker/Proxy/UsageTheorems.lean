/-
ProxyBroker.Proxy.UsageTheorems — what `doLog` calls leave in the
database.

First what one commit does to the rows of an address, then what a call
that nobody interrupts does, then what a sequence of such calls does:
the rotate row is the tally of the reports, and the address is blocked as
soon as a prefix of the reports was bad enough.

The tally is kept by `logRotate`, for every report; the runs add nothing
but the fact that each call reads the row the call before it has saved.
-/
import Mathlib.Data.Rat.Floor
import ProxyBroker.Proxy.ProxyRotatorTheorems

namespace ProxyBroker.Proxy

open Lib Server

namespace Rotator

/-! ## The rows of an address -/

@[simp] theorem setLog_rotates (s : Rotator) (i : Nat) (call : LogCall) :
    (s.setLog i call).rotates = s.rotates := rfl

@[simp] theorem setLog_addrs (s : Rotator) (i : Nat) (call : LogCall) :
    (s.setLog i call).addrs = s.addrs := rfl

@[simp] theorem endLog_rotates (s : Rotator) (i : Nat) : (s.endLog i).rotates = s.rotates := rfl

@[simp] theorem endLog_addrs (s : Rotator) (i : Nat) : (s.endLog i).addrs = s.addrs := rfl

/-- Only `doLog` writes these tables, and not behind its transaction. -/
@[simp] theorem settleEntry_tables (s : Rotator) (call : LogCall) (rotate : IpRotate)
    (remove : Bool) :
    (s.settleEntry call rotate remove).rotates = s.rotates ∧
      (s.settleEntry call rotate remove).addrs = s.addrs ∧
      (s.settleEntry call rotate remove).logs = s.logs := by
  unfold settleEntry modify
  split
  · exact ⟨rfl, rfl, rfl⟩
  · split_ifs <;> exact ⟨rfl, rfl, rfl⟩

theorem logSettle_tables (s : Rotator) (i : Nat) (call : LogCall) (rotate : IpRotate)
    (remove : Bool) :
    (s.logSettle i call rotate remove).rotates = s.rotates ∧
      (s.logSettle i call rotate remove).addrs = s.addrs ∧
      (s.logSettle i call rotate remove).logs = s.logs.eraseIdx i := by
  obtain ⟨hrotates, haddrs, hlogs⟩ := settleEntry_tables s call rotate remove
  refine ⟨hrotates, haddrs, ?_⟩
  rw [logSettle, endLog, hlogs]

theorem logRead_of_found {s : Rotator} (i : Nat) {call : LogCall} {addr : AddrRow}
    (h : s.findAddr call.used.ip call.used.port = some addr) :
    s.logRead i call = s.setLog i { call with
      stage := .read addr.id (s.findRotate addr.id call.used.protocol) } := by
  rw [logRead, h]

theorem logRotate_key (ip : ProxyUsed) (r : IpRotate) :
    (logRotate ip r).addrId = r.addrId ∧ (logRotate ip r).protocolSrc = r.protocolSrc := by
  unfold logRotate
  split <;> exact ⟨rfl, rfl⟩

theorem findRotate_key {s : Rotator} {addrId : Nat} {p : ProtocolType} {r : IpRotate}
    (h : s.findRotate addrId p = some r) : r.addrId = addrId ∧ r.protocolSrc = p := by
  simpa using List.find?_some h

/-- The row a call saves is for the address and protocol it read. -/
theorem savedRotate_key {call : LogCall} {addrId : Nat} {rotate : Option IpRotate}
    (h : ∀ r ∈ rotate, r.addrId = addrId ∧ r.protocolSrc = call.used.protocol) :
    (savedRotate call addrId rotate).addrId = addrId ∧
      (savedRotate call addrId rotate).protocolSrc = call.used.protocol := by
  unfold savedRotate
  rw [(logRotate_key _ _).1, (logRotate_key _ _).2]
  cases rotate with
  | none => exact ⟨rfl, rfl⟩
  | some r => exact h r rfl

/-- The unique index is asked the same question as `findOne`. -/
theorem any_isRowOf (s : Rotator) (row : IpRotate) :
    s.rotates.any (isRowOf row) = (s.findRotate row.addrId row.protocolSrc).isSome := by
  rw [Bool.eq_iff_iff, List.any_eq_true]
  exact List.find?_isSome.symm

/-- The address as a commit leaves it. -/
def blockedBy (addrId : Nat) (row : IpRotate) (a : AddrRow) : AddrRow :=
  if blocks row && a.id = addrId then
    { a with blocked := true, toDelete := a.toDelete || row.successes = 0 }
  else a

theorem blockedBy_key (addrId : Nat) (row : IpRotate) (a : AddrRow) :
    (blockedBy addrId row a).ip = a.ip ∧ (blockedBy addrId row a).port = a.port := by
  unfold blockedBy
  split <;> exact ⟨rfl, rfl⟩

/-- The commit would insert a row that exists by now. -/
def refused (s : Rotator) (call : LogCall) (addrId : Nat) (rotate : Option IpRotate) : Bool :=
  rotate.isNone && s.rotates.any (isRowOf (savedRotate call addrId rotate))

theorem logCommit_of_refused {s : Rotator} {i : Nat} {call : LogCall} {addrId : Nat}
    {rotate : Option IpRotate} (h : s.refused call addrId rotate = true) :
    s.logCommit i call addrId rotate = s.endLog i := by
  unfold logCommit
  exact if_pos h

/-- What a commit that is not refused leaves in the tables. -/
theorem logCommit_of_accepted {s : Rotator} (i : Nat) {call : LogCall} {addrId : Nat}
    {rotate : Option IpRotate} (h : s.refused call addrId rotate = false) :
    (s.logCommit i call addrId rotate).rotates =
        (if rotate.isNone then s.rotates ++ [savedRotate call addrId rotate]
        else s.rotates.map (fun r =>
          if isRowOf (savedRotate call addrId rotate) r then savedRotate call addrId rotate
          else r)) ∧
      (s.logCommit i call addrId rotate).addrs =
        s.addrs.map (blockedBy addrId (savedRotate call addrId rotate)) ∧
      (s.logCommit i call addrId rotate).logs =
        s.logs.set i { call with
          stage := .committed (savedRotate call addrId rotate)
            (blocks (savedRotate call addrId rotate)) } := by
  have h' : ¬ (rotate.isNone && s.rotates.any (isRowOf (savedRotate call addrId rotate))) = true :=
    fun hr => Bool.noConfusion (h.symm.trans hr)
  unfold logCommit
  dsimp only
  rw [if_neg h']
  refine ⟨rfl, ?_, rfl⟩
  cases hb : blocks (savedRotate call addrId rotate) with
  | true =>
      refine List.map_congr_left ?_
      intro a _
      simp [blockedBy, hb]
  | false =>
      refine (List.map_id'' ?_ s.addrs).symm
      intro a
      simp [blockedBy, hb]

/-- The address behind a commit. -/
theorem logCommit_findAddr {s : Rotator} (i : Nat) {call : LogCall} {addrId : Nat}
    {rotate : Option IpRotate} (h : s.refused call addrId rotate = false) (ip : Text) (port : Nat) :
    (s.logCommit i call addrId rotate).findAddr ip port =
      (s.findAddr ip port).map (blockedBy addrId (savedRotate call addrId rotate)) := by
  unfold findAddr
  rw [(logCommit_of_accepted i h).2.1, List.find?_map]
  congr 2
  funext a
  rw [Function.comp_apply, (blockedBy_key addrId _ a).1, (blockedBy_key addrId _ a).2]

/-- The row behind a commit that found what is there: the next reader
finds what the call has saved. -/
theorem logCommit_findRotate {s : Rotator} (i : Nat) {call : LogCall} {addrId : Nat}
    {rotate : Option IpRotate}
    (hkey : ∀ r ∈ rotate, r.addrId = addrId ∧ r.protocolSrc = call.used.protocol)
    (hrow : (s.findRotate addrId call.used.protocol).isSome = rotate.isSome) :
    (s.logCommit i call addrId rotate).findRotate addrId call.used.protocol =
      some (savedRotate call addrId rotate) := by
  obtain ⟨haddr, hproto⟩ := savedRotate_key hkey
  have hrefused : s.refused call addrId rotate = false := by
    rw [refused, any_isRowOf, haddr, hproto, hrow]
    cases rotate <;> rfl
  have hfind : isRowOf (savedRotate call addrId rotate) =
      fun r => r.addrId = addrId && r.protocolSrc = call.used.protocol := by
    funext r
    rw [isRowOf, haddr, hproto]
  unfold findRotate at hrow ⊢
  rw [(logCommit_of_accepted i hrefused).1, ← hfind]
  rw [← hfind] at hrow
  have hself :
      isRowOf (savedRotate call addrId rotate) (savedRotate call addrId rotate) = true := by
    simp [isRowOf]
  cases rotate with
  | none =>
      rw [Option.isSome_none, Option.isSome_eq_false_iff, Option.isNone_iff_eq_none] at hrow
      rw [Option.isNone_none, if_pos rfl, List.find?_append, hrow]
      simp [hself]
  | some r =>
      obtain ⟨r₀, hr₀⟩ := Option.isSome_iff_exists.mp hrow
      have hsame : (isRowOf (savedRotate call addrId (some r)) ∘ fun x =>
            if isRowOf (savedRotate call addrId (some r)) x then savedRotate call addrId (some r)
            else x) =
          isRowOf (savedRotate call addrId (some r)) := by
        funext x
        rw [Function.comp_apply]
        split
        · rw [hself, ‹isRowOf _ x = true›]
        · rfl
      rw [Option.isNone_some, if_neg Bool.false_ne_true, List.find?_map, hsame, hr₀,
        Option.map_some, if_pos (List.find?_some hr₀)]

/-! ## One call, not interrupted -/

/-- A call and its three parts, no other call being there. -/
def logActions (ip : ProxyUsed) (test : Bool) : List Action :=
  [.doLog ip test, .logGo 0, .logGo 0, .logGo 0]

/-- The row a call leaves. -/
def nextRotate (s : Rotator) (addrId : Nat) (ip : ProxyUsed) : IpRotate :=
  logRotate ip
    ((s.findRotate addrId ip.protocol).getD { protocolSrc := ip.protocol, addrId := addrId })

theorem run_logActions (options : RotatorOptions) {s : Rotator} {addr : AddrRow} (ip : ProxyUsed)
    (test : Bool) (hidle : s.logs = []) (haddr : s.findAddr ip.ip ip.port = some addr) :
    ∃ t, (machine options).run s (logActions ip test) = some t ∧ t.logs = [] ∧
      t.findRotate addr.id ip.protocol = some (s.nextRotate addr.id ip) ∧
      t.findAddr ip.ip ip.port = some (blockedBy addr.id (s.nextRotate addr.id ip) addr) := by
  let call : LogCall :=
    { used := ip, addr := if test then none else s.findActiveEntry ip.ip ip.port ip.protocolDest }
  let rotate := s.findRotate addr.id ip.protocol
  let read : LogCall := { call with stage := .read addr.id rotate }
  let row := s.nextRotate addr.id ip
  let done : LogCall := { call with stage := .committed row (blocks row) }
  let s₁ := s.logCall ip test
  let s₂ := s₁.setLog 0 read
  let s₃ := s₂.logCommit 0 read addr.id rotate
  have hkey : ∀ r ∈ rotate, r.addrId = addr.id ∧ r.protocolSrc = ip.protocol :=
    fun r hr => findRotate_key hr
  have hlogs₁ : s₁.logs = [call] := by
    show s.logs ++ [call] = [call]
    rw [hidle, List.nil_append]
  have hlogs₂ : s₂.logs = [read] := by
    show s₁.logs.set 0 read = [read]
    rw [hlogs₁]
    rfl
  have haccepted : s₂.refused read addr.id rotate = false := by
    have hsaved : (savedRotate read addr.id rotate).addrId = addr.id ∧
        (savedRotate read addr.id rotate).protocolSrc = ip.protocol := savedRotate_key hkey
    rw [refused, any_isRowOf, hsaved.1, hsaved.2]
    show (rotate.isNone && rotate.isSome) = false
    cases rotate <;> rfl
  have hlogs₃ : s₃.logs = [done] := by
    rw [(logCommit_of_accepted 0 haccepted).2.2, hlogs₂]
    rfl
  have hread : s₁.logGo 0 call = s₂ := logRead_of_found 0 haddr
  refine ⟨s₃.logSettle 0 done row (blocks row), ?_, ?_, ?_, ?_⟩
  · show ((s₁.logs[0]?.map (s₁.logGo 0)).bind _) = _
    rw [hlogs₁]
    show (machine options).run (s₁.logGo 0 call) [.logGo 0, .logGo 0] = _
    rw [hread]
    show ((s₂.logs[0]?.map (s₂.logGo 0)).bind _) = _
    rw [hlogs₂]
    show ((s₃.logs[0]?.map (s₃.logGo 0)).bind _) = _
    rw [hlogs₃]
    rfl
  · rw [(logSettle_tables ..).2.2, hlogs₃]
    rfl
  · unfold findRotate
    rw [(logSettle_tables ..).1]
    show s₃.findRotate addr.id read.used.protocol = _
    exact logCommit_findRotate 0 hkey rfl
  · unfold findAddr
    rw [(logSettle_tables ..).2.1]
    refine (logCommit_findAddr 0 haccepted ip.ip ip.port).trans ?_
    show (s.findAddr ip.ip ip.port).map _ = _
    rw [haddr]
    rfl

/-! ## The tally -/

/-- Milliseconds of the successful ones. -/
def durationSum : List ProxyUsed → Nat
  | [] => 0
  | ip :: ips => (if ip.success then ip.duration else 0) + durationSum ips

def successCount (ips : List ProxyUsed) : Nat := ips.countP (fun ip => ip.success)

def errorCount (ips : List ProxyUsed) : Nat := ips.countP (fun ip => !ip.success)

/-- The row of a usage history. -/
structure Tally (ips : List ProxyUsed) (r : IpRotate) : Prop where
  inc : r.inc = ips.length
  successes : r.successes = successCount ips
  errors : r.errors = errorCount ips
  total : r.inc = r.successes + r.errors
  used : r.used = r.inc % 10
  duration : r.duration = durationSum ips
  average : 0 < r.duration → 0 < r.successes →
    r.durationAverage = ⌈(r.duration : ℚ) / r.successes⌉₊

/-- A history bad enough to block. -/
def BadHistory (ips : List ProxyUsed) : Prop :=
  100 < ips.length ∧ 100 * successCount ips < 15 * ips.length

instance (ips : List ProxyUsed) : Decidable (BadHistory ips) := inferInstanceAs (Decidable (_ ∧ _))

@[simp] theorem durationSum_concat (ips : List ProxyUsed) (ip : ProxyUsed) :
    durationSum (ips ++ [ip]) = durationSum ips + if ip.success then ip.duration else 0 := by
  induction ips with
  | nil => simp [durationSum]
  | cons x xs ih => rw [List.cons_append, durationSum, durationSum, ih, Nat.add_assoc]

@[simp] theorem successCount_concat (ips : List ProxyUsed) (ip : ProxyUsed) :
    successCount (ips ++ [ip]) = successCount ips + if ip.success then 1 else 0 := by
  simp [successCount, List.countP_append, List.countP_singleton]

@[simp] theorem errorCount_concat (ips : List ProxyUsed) (ip : ProxyUsed) :
    errorCount (ips ++ [ip]) = errorCount ips + if ip.success then 0 else 1 := by
  cases h : ip.success <;> simp [errorCount, List.countP_append, h]

/-- `Math.ceil` of a quotient. -/
theorem ceil_quotient (d : Nat) {n : Nat} (hn : 0 < n) : ⌈(d : ℚ) / n⌉₊ = (d + n - 1) / n := by
  refine eq_of_forall_ge_iff ?_
  intro c
  have hn' : (0 : ℚ) < n := by exact_mod_cast hn
  rw [Nat.ceil_le, div_le_iff₀ hn', Nat.div_le_iff_le_mul_add_pred hn]
  have hcast : (d : ℚ) ≤ c * n ↔ d ≤ c * n := by exact_mod_cast Iff.rfl
  rw [hcast, Nat.mul_comm c n]
  omega

theorem logRotate_success {ip : ProxyUsed} (h : ip.success = true) (r : IpRotate) :
    (logRotate ip r).inc = r.inc + 1 ∧ (logRotate ip r).successes = r.successes + 1 ∧
      (logRotate ip r).errors = r.errors ∧
      (logRotate ip r).duration = r.duration + ip.duration := by
  rw [logRotate, if_pos h]
  exact ⟨rfl, rfl, rfl, rfl⟩

theorem logRotate_error {ip : ProxyUsed} (h : ip.success = false) (r : IpRotate) :
    (logRotate ip r).inc = r.inc + 1 ∧ (logRotate ip r).successes = r.successes ∧
      (logRotate ip r).errors = r.errors + 1 ∧ (logRotate ip r).duration = r.duration ∧
      (logRotate ip r).durationAverage = r.durationAverage := by
  rw [logRotate, if_neg (by rw [h]; exact Bool.false_ne_true)]
  exact ⟨rfl, rfl, rfl, rfl, rfl⟩

/-- The wrapping counter follows the other one. -/
theorem logRotate_used (ip : ProxyUsed) {r : IpRotate} (h : r.used = r.inc % 10) :
    (logRotate ip r).used = (logRotate ip r).inc % 10 := by
  have hwrap : (if (r.inc + 1) % 10 = 0 then 0 else r.used + 1) = (r.inc + 1) % 10 := by
    split <;> omega
  unfold logRotate
  split <;> exact hwrap

theorem logRotate_average (ip : ProxyUsed) {r : IpRotate}
    (h : 0 < r.duration → 0 < r.successes →
      r.durationAverage = ⌈(r.duration : ℚ) / r.successes⌉₊)
    (hd : 0 < (logRotate ip r).duration) (hn : 0 < (logRotate ip r).successes) :
    (logRotate ip r).durationAverage =
      ⌈((logRotate ip r).duration : ℚ) / (logRotate ip r).successes⌉₊ := by
  cases hs : ip.success with
  | true =>
      rw [ceil_quotient _ hn]
      simp only [logRotate, hs, if_true] at hd hn ⊢
      rw [if_pos ⟨hd, hn⟩]
  | false =>
      obtain ⟨-, hsucc, -, hdur, havg⟩ := logRotate_error hs r
      rw [hsucc] at hn ⊢
      rw [hdur] at hd ⊢
      rw [havg]
      exact h hd hn

theorem Tally.fresh (addrId : Nat) (p : ProtocolType) :
    Tally [] { protocolSrc := p, addrId := addrId } where
  inc := rfl
  successes := rfl
  errors := rfl
  total := rfl
  used := rfl
  duration := rfl
  average h := absurd h (Nat.lt_irrefl 0)

/-- **Step lemma**: a report more. -/
theorem Tally.concat {ips : List ProxyUsed} {r : IpRotate} (h : Tally ips r) (ip : ProxyUsed) :
    Tally (ips ++ [ip]) (logRotate ip r) := by
  have hused := logRotate_used ip h.used
  have haverage := logRotate_average ip h.average
  cases hs : ip.success with
  | true =>
      obtain ⟨hinc, hsucc, herr, hdur⟩ := logRotate_success hs r
      refine ⟨?_, ?_, ?_, ?_, hused, ?_, haverage⟩
      · rw [hinc, h.inc, List.length_append, List.length_singleton]
      · rw [hsucc, h.successes, successCount_concat, hs, if_pos rfl]
      · rw [herr, h.errors, errorCount_concat, hs, if_pos rfl, Nat.add_zero]
      · rw [hinc, hsucc, herr, h.total, Nat.add_right_comm]
      · rw [hdur, h.duration, durationSum_concat, hs, if_pos rfl]
  | false =>
      obtain ⟨hinc, hsucc, herr, hdur, -⟩ := logRotate_error hs r
      refine ⟨?_, ?_, ?_, ?_, hused, ?_, haverage⟩
      · rw [hinc, h.inc, List.length_append, List.length_singleton]
      · rw [hsucc, h.successes, successCount_concat, hs]
        rfl
      · rw [herr, h.errors, errorCount_concat, hs]
        rfl
      · rw [hinc, hsucc, herr, h.total, Nat.add_assoc]
      · rw [hdur, h.duration, durationSum_concat, hs]
        rfl

/-- The rule that blocks, in terms of the history. -/
theorem Tally.blocks_iff {ips : List ProxyUsed} {r : IpRotate} (h : Tally ips r) :
    blocks r = true ↔ BadHistory ips := by
  rw [blocks, Bool.and_eq_true, decide_eq_true_iff, decide_eq_true_iff, h.inc, h.successes,
    BadHistory, Nat.mul_comm (successCount ips)]

/-! ## A sequence of calls -/

/-- One call behind the other. -/
def logSequence : List (ProxyUsed × Bool) → List Action
  | [] => []
  | (ip, test) :: reports => logActions ip test ++ logSequence reports

/-- The row of address `addr` and protocol `p`; a new one if there is
none. -/
def rotateRow (s : Rotator) (addr : AddrRow) (p : ProtocolType) : IpRotate :=
  (s.findRotate addr.id p).getD { protocolSrc := p, addrId := addr.id }

/-- The tables are those of a usage history: `addr` is the address as it
was in front of it. -/
structure Booked (addr : AddrRow) (p : ProtocolType) (ips : List ProxyUsed) (s : Rotator) :
    Prop where
  idle : s.logs = []
  stored : ips ≠ [] → (s.findRotate addr.id p).isSome = true
  tally : Tally ips (s.rotateRow addr p)
  address : ∃ row, s.findAddr addr.ip addr.port = some row ∧ row.id = addr.id ∧
    (row.blocked = true ↔ addr.blocked = true ∨ ∃ pre, pre <+: ips ∧ BadHistory pre) ∧
    (row.toDelete = true ↔
      addr.toDelete = true ∨ ∃ pre, pre <+: ips ∧ BadHistory pre ∧ successCount pre = 0)

/-- A history gets bad with its last report, or was so before. -/
theorem exists_prefix_concat {α : Type} {P : List α → Prop} {l : List α} {a : α} :
    (∃ pre, pre <+: l ++ [a] ∧ P pre) ↔ (∃ pre, pre <+: l ∧ P pre) ∨ P (l ++ [a]) := by
  constructor
  · rintro ⟨pre, hpre, hP⟩
    rcases List.prefix_concat_iff.mp hpre with rfl | hpre
    · exact .inr hP
    · exact .inl ⟨pre, hpre, hP⟩
  · rintro (⟨pre, hpre, hP⟩ | hP)
    · exact ⟨pre, hpre.trans (List.prefix_append l [a]), hP⟩
    · exact ⟨l ++ [a], List.prefix_refl _, hP⟩

theorem blockedBy_blocked (addrId : Nat) (row : IpRotate) {a : AddrRow} (h : a.id = addrId) :
    ((blockedBy addrId row a).blocked = true ↔ a.blocked = true ∨ blocks row = true) ∧
      ((blockedBy addrId row a).toDelete = true ↔
        a.toDelete = true ∨ blocks row = true ∧ row.successes = 0) ∧
      (blockedBy addrId row a).id = a.id := by
  unfold blockedBy
  cases blocks row <;> simp [h]

/-- **Step lemma**: a call more. -/
theorem Booked.concat (options : RotatorOptions) {addr : AddrRow} {ips : List ProxyUsed}
    {s : Rotator} {ip : ProxyUsed} (h : Booked addr ip.protocol ips s) (test : Bool)
    (hip : ip.ip = addr.ip) (hport : ip.port = addr.port) :
    ∃ t, (machine options).run s (logActions ip test) = some t ∧
      Booked addr ip.protocol (ips ++ [ip]) t := by
  obtain ⟨row, hrow, hid, hblocked, hdelete⟩ := h.address
  rw [← hip, ← hport] at hrow
  obtain ⟨t, hrun, hidle, hrotate, haddr⟩ := run_logActions options ip test h.idle hrow
  have htally : Tally (ips ++ [ip]) (s.nextRotate row.id ip) := by
    rw [hid]
    exact h.tally.concat ip
  obtain ⟨hb, hd, hkeep⟩ := blockedBy_blocked row.id (s.nextRotate row.id ip) rfl
  refine ⟨t, hrun, hidle, ?_, ?_, _, ?_, hkeep.trans hid, ?_, ?_⟩
  · intro _
    rw [← hid, hrotate]
    rfl
  · rw [rotateRow, ← hid, hrotate]
    exact htally
  · rw [← hip, ← hport]
    exact haddr
  · rw [hb, hblocked, htally.blocks_iff, exists_prefix_concat, or_assoc]
  · rw [hd, hdelete, htally.blocks_iff, htally.successes, exists_prefix_concat, or_assoc]

/-- **Run lemma**: a sequence of calls more. -/
theorem Booked.sequence {options : RotatorOptions} {addr : AddrRow} {p : ProtocolType}
    {reports : List (ProxyUsed × Bool)}
    (hfor : ∀ report ∈ reports,
      report.1.ip = addr.ip ∧ report.1.port = addr.port ∧ report.1.protocol = p)
    {ips : List ProxyUsed} {s : Rotator} (h : Booked addr p ips s) :
    ∃ t, (machine options).run s (logSequence reports) = some t ∧
      Booked addr p (ips ++ reports.map Prod.fst) t := by
  induction reports generalizing ips s with
  | nil =>
      refine ⟨s, rfl, ?_⟩
      rw [List.map_nil, List.append_nil]
      exact h
  | cons report reports ih =>
      obtain ⟨hip, hport, rfl⟩ := hfor report List.mem_cons_self
      obtain ⟨t, hrun, ht⟩ := h.concat options report.2 hip hport
      obtain ⟨u, hrun', hu⟩ := ih (fun r hr => hfor r (List.mem_cons_of_mem _ hr)) ht
      refine ⟨u, ?_, ?_⟩
      · rw [logSequence, Machine.run_append, hrun]
        exact hrun'
      · rw [List.map_cons, List.append_cons]
        exact hu

theorem not_badHistory_nil {Q : List ProxyUsed → Prop} :
    ¬ ∃ pre, pre <+: [] ∧ BadHistory pre ∧ Q pre := by
  rintro ⟨pre, hpre, hbad, -⟩
  rw [List.prefix_nil.mp hpre] at hbad
  exact absurd hbad.1 (by decide)

/-- Nothing is booked yet: no row, or the one `doEnqueue` saves of an
address that has none. -/
def Unused (s : Rotator) (addr : AddrRow) (p : ProtocolType) : Prop :=
  ∀ r ∈ s.findRotate addr.id p, r = { protocolSrc := p, addrId := addr.id }

instance (s : Rotator) (addr : AddrRow) (p : ProtocolType) : Decidable (s.Unused addr p) :=
  inferInstanceAs (Decidable (∀ r ∈ s.findRotate addr.id p, r = _))

theorem rotateRow_of_unused {s : Rotator} {addr : AddrRow} {p : ProtocolType}
    (h : s.Unused addr p) : s.rotateRow addr p = { protocolSrc := p, addrId := addr.id } := by
  unfold rotateRow
  cases hrow : s.findRotate addr.id p with
  | none => rfl
  | some r => exact h r hrow

theorem Booked.fresh {s : Rotator} {addr : AddrRow} {p : ProtocolType} (hidle : s.logs = [])
    (haddr : s.findAddr addr.ip addr.port = some addr) (hfresh : s.Unused addr p) :
    Booked addr p [] s where
  idle := hidle
  stored h := absurd rfl h
  tally := by
    rw [rotateRow_of_unused hfresh]
    exact Tally.fresh addr.id p
  address := by
    refine ⟨addr, haddr, rfl, ⟨.inl, ?_⟩, ⟨.inl, ?_⟩⟩
    · rintro (h | ⟨pre, hpre, hbad⟩)
      · exact h
      · exact absurd ⟨pre, hpre, hbad, trivial⟩ (not_badHistory_nil (Q := fun _ => True))
    · rintro (h | h)
      · exact h
      · exact absurd h not_badHistory_nil

/-- **Usage statistics**: a sequence of calls for one address and source
protocol that has no row, or an all-zero one, leaves the tally of its
reports, and has blocked the address if and only if one of its prefixes
was bad enough. -/
theorem booked_of_sequence {options : RotatorOptions} {s : Rotator} {addr : AddrRow}
    {p : ProtocolType} {reports : List (ProxyUsed × Bool)} (hidle : s.logs = [])
    (haddr : s.findAddr addr.ip addr.port = some addr) (hfresh : s.Unused addr p)
    (hfor : ∀ report ∈ reports,
      report.1.ip = addr.ip ∧ report.1.port = addr.port ∧ report.1.protocol = p) :
    ∃ t, (machine options).run s (logSequence reports) = some t ∧
      Booked addr p (reports.map Prod.fst) t :=
  (Booked.fresh hidle haddr hfresh).sequence hfor

def theAddress : AddrRow := { id := 1, ip := exampleAddr.ip, port := exampleAddr.port }

/-- A rotator with one stored address that was never used. -/
def oneAddress : Rotator where
  heap _ := exampleAddr
  addrs := [theAddress]

/-- The same address behind the `doEnqueue` that has fetched it. -/
def fetchedAddress : Rotator :=
  { oneAddress with rotates := [{ protocolSrc := .http, addrId := 1 }] }

def exampleReport (duration : Nat) (success : Bool) : ProxyUsed where
  protocol := .http
  protocolDest := .http
  ip := exampleAddr.ip
  port := exampleAddr.port
  duration := duration
  success := success

/-- A success, an error, a success. -/
theorem booked_threeReports :
    ∃ t, (machine {}).run fetchedAddress (logSequence
        [(exampleReport 30 true, false), (exampleReport 7 false, true),
          (exampleReport 25 true, false)]) = some t ∧
      Booked theAddress .http
        [exampleReport 30 true, exampleReport 7 false, exampleReport 25 true] t :=
  booked_of_sequence rfl (by decide) (by decide) (by decide)

end Rotator

end ProxyBroker.Proxy
