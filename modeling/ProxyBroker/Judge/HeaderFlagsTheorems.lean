/-
ProxyBroker.Judge.HeaderFlagsTheorems — what `detect` says of the single
header.

Both patterns are global regular expressions, and one expression is used
on all headers: behind a match the next value is searched from where the
match ended. `Independent` is what is to be expected of the flags all the
same, and `independent_iff` says when it is so: no header whose value has
the pattern may have it in the skipped part only (`Unskipped`).
-/
import ProxyBroker.Judge.LevelTheorems

namespace ProxyBroker.Judge

open Lib

/-- Searched one behind the other, the first from `lastIndex`, no value
has the pattern in its skipped part only. -/
def Unskipped (names : List Text) : Nat → List Text → Prop
  | _, [] => True
  | lastIndex, value :: values =>
      (OccursIn names value → lastIndex ≤ value.length ∧ OccursIn names (value.drop lastIndex)) ∧
        Unskipped names (testAt names lastIndex value).2 values

def decidableUnskipped (names : List Text) : ∀ i values, Decidable (Unskipped names i values)
  | _, [] => inferInstanceAs (Decidable True)
  | lastIndex, value :: values =>
      haveI := decidableUnskipped names (testAt names lastIndex value).2 values
      inferInstanceAs (Decidable ((OccursIn names value →
        lastIndex ≤ value.length ∧ OccursIn names (value.drop lastIndex)) ∧
          Unskipped names (testAt names lastIndex value).2 values))

instance (names : List Text) (i : Nat) (values : List Text) :
    Decidable (Unskipped names i values) := decidableUnskipped names i values

theorem testAt_iff (names : List Text) (lastIndex : Nat) (value : Text) :
    (testAt names lastIndex value).1 = true ↔
      lastIndex ≤ value.length ∧ OccursIn names (value.drop lastIndex) := by
  have hsearch := searchFrom_isSome names lastIndex (value.drop lastIndex)
  unfold OccursIn
  rw [← hsearch]
  simp only [testAt, AddrRegex.test]
  by_cases hlt : value.length < lastIndex
  · rw [if_pos hlt]
    exact iff_of_false (by simp) (fun h => absurd h.1 (Nat.not_le_of_lt hlt))
  · rw [if_neg hlt]
    cases searchFrom names lastIndex (value.drop lastIndex) with
    | none => simp
    | some last => simpa using Nat.le_of_not_lt hlt

theorem reliable_iff_unskipped (names : List Text) (lastIndex : Nat) (values : List Text) :
    Reliable (testAt names) (OccursIn names) lastIndex values ↔
      Unskipped names lastIndex values := by
  induction values generalizing lastIndex with
  | nil => exact Iff.rfl
  | cons value values ih =>
      have hsound := testAt_sound names lastIndex value
      unfold Reliable Unskipped
      rw [ih, ← testAt_iff]
      exact and_congr_left' ⟨fun h => h.mpr, fun h => ⟨hsound, h⟩⟩

namespace LevelDetection

variable (toLocaleLowerCase : Text → Text)

/-- What one `detect` is to find out of each header of `hs`. -/
structure Independent (locals proxies : List Text) (hs : List (Text × Text))
    (d : LevelDetection) : Prop where
  received : d.recvHeaders.map (fun h => (h.key, h.value)) = hs
  isLocal : ∀ h ∈ d.recvHeaders, h.hasLocalIp = true ↔ OccursIn locals h.value
  isProxy : ∀ h ∈ d.recvHeaders, h.hasProxyIp = true ↔ OccursIn proxies h.value
  localCount : d.stats.hasLocalIp = hs.countP (fun h => decide (OccursIn locals h.2))
  proxyCount : d.stats.hasProxyIp = hs.countP (fun h => decide (OccursIn proxies h.2))

/-- The headers with what was found of the addresses. -/
def findings (d : LevelDetection) : List ((Text × Text) × Bool × Bool) :=
  d.recvHeaders.map (fun h => ((h.key, h.value), h.hasLocalIp, h.hasProxyIp))

/-- A column is right exactly if each of its flags is. -/
theorem flags_eq_iff (names : List Text) (flag : Header → Bool) (headers : List Header) :
    headers.map flag = (headers.map (·.value)).map (fun v => decide (OccursIn names v)) ↔
      ∀ h ∈ headers, flag h = true ↔ OccursIn names h.value := by
  rw [List.map_map, List.map_inj_left]
  refine forall₂_congr ?_
  intro h _
  rw [Function.comp_apply, Bool.eq_iff_iff, decide_eq_true_iff]

/-- A column of a fresh detection: its flags and its count. -/
theorem column_spec {names : List Text} {flag : Header → Bool}
    {state : LevelDetection → Nat} {count : LevelDetection → Nat}
    {r : List Header × LevelDetection} {values : List Text} (hvalues : r.1.map (·.value) = values)
    (hcolumn : column flag state count r =
      scan (testAt names) 0 0 (values.map (fun v => (false, v)))) :
    ((∀ h ∈ r.1, flag h = true ↔ OccursIn names h.value) ↔ Unskipped names 0 values) ∧
      ((∀ h ∈ r.1, flag h = true ↔ OccursIn names h.value) →
        count r.2 = values.countP (fun v => decide (OccursIn names v))) := by
  have hflags : r.1.map flag = (scan (testAt names) 0 0 (values.map (fun v => (false, v)))).1 :=
    congrArg Prod.fst hcolumn
  have hcount : count r.2 =
      (scan (testAt names) 0 0 (values.map (fun v => (false, v)))).2.2 :=
    congrArg (fun c : List Bool × Nat × Nat => c.2.2) hcolumn
  have hiff := flags_eq_iff names flag r.1
  rw [hvalues] at hiff
  rw [← hiff, hflags, scan_flags_iff, reliable_iff_unskipped]
  refine ⟨Iff.rfl, ?_⟩
  intro hright
  rw [hcount, scan_count, (scan_flags_iff _ _ _ _).mpr ((reliable_iff_unskipped _ _ _).mpr hright),
    Nat.zero_add, List.count, List.countP_map]
  congr 1
  funext v
  simp

/-- The columns of a detection from start to end. -/
theorem judge_columns (dns : DomainUtils) (proxyIp localIp : Text) (headers : List (Text × Text)) :
    ∃ r : List Header × LevelDetection,
      (judge toLocaleLowerCase dns proxyIp localIp headers).recvHeaders = r.1 ∧
        (judge toLocaleLowerCase dns proxyIp localIp headers).stats = r.2.stats ∧
        r.1.map (fun h => (h.key, h.value)) = received headers ∧
        column (·.hasLocalIp) (·.localRegex.lastIndex) (·.stats.hasLocalIp) r =
          scan (testAt (createAddrRegex dns localIp)) 0 0
            (((received headers).map Prod.snd).map (fun v => (false, v))) ∧
        column (·.hasProxyIp) (·.proxyRegex.lastIndex) (·.stats.hasProxyIp) r =
          scan (testAt (createAddrRegex dns proxyIp)) 0 0
            (((received headers).map Prod.snd).map (fun v => (false, v))) := by
  let d : LevelDetection :=
    ({ proxyIp := proxyIp, localIp := localIp : LevelDetection }.prepare dns).addRecvHeader headers
  have hkeys : d.recvHeaders.map (fun h => (h.key, h.value)) = received headers := by
    simp [d, addRecvHeader, prepare, Function.comp_def]
  refine ⟨detectHeaders toLocaleLowerCase d.recvHeaders d, rfl, rfl, ?_, ?_, ?_⟩
  · rw [detectHeaders_received, hkeys]
  · rw [detectHeaders_local]
    simp [d, addRecvHeader, prepare, Function.comp_def]
  · rw [detectHeaders_proxy]
    simp [d, addRecvHeader, prepare, Function.comp_def]

theorem independent_iff_unskipped (dns : DomainUtils) (proxyIp localIp : Text)
    (headers : List (Text × Text)) :
    Independent (createAddrRegex dns localIp) (createAddrRegex dns proxyIp) (received headers)
        (judge toLocaleLowerCase dns proxyIp localIp headers) ↔
      Unskipped (createAddrRegex dns localIp) 0 ((received headers).map Prod.snd) ∧
        Unskipped (createAddrRegex dns proxyIp) 0 ((received headers).map Prod.snd) := by
  obtain ⟨r, hheaders, hstats, hreceived, hlocal, hproxy⟩ :=
    judge_columns toLocaleLowerCase dns proxyIp localIp headers
  have hvalues : r.1.map (·.value) = (received headers).map Prod.snd := by
    rw [← hreceived, List.map_map]
    rfl
  obtain ⟨hlocalIff, hlocalCount⟩ := column_spec hvalues hlocal
  obtain ⟨hproxyIff, hproxyCount⟩ := column_spec hvalues hproxy
  rw [← hlocalIff, ← hproxyIff]
  constructor
  · intro h
    rw [← hheaders]
    exact ⟨h.isLocal, h.isProxy⟩
  · rintro ⟨hl, hp⟩
    refine ⟨?_, ?_, ?_, ?_, ?_⟩
    · rw [hheaders, hreceived]
    · rw [hheaders]
      exact hl
    · rw [hheaders]
      exact hp
    · rw [hstats, hlocalCount hl, List.countP_map]
      rfl
    · rw [hstats, hproxyCount hp, List.countP_map]
      rfl

/-- Independent findings are a function of the single header. -/
theorem Independent.findings {locals proxies : List Text} {hs : List (Text × Text)}
    {d : LevelDetection} (h : Independent locals proxies hs d) :
    d.findings = hs.map (fun h =>
      (h, decide (OccursIn locals h.2), decide (OccursIn proxies h.2))) := by
  rw [← h.received, List.map_map]
  refine List.map_congr_left ?_
  intro header hmem
  have hl : header.hasLocalIp = decide (OccursIn locals header.value) := by
    rw [Bool.eq_iff_iff, decide_eq_true_iff]
    exact h.isLocal header hmem
  have hp : header.hasProxyIp = decide (OccursIn proxies header.value) := by
    rw [Bool.eq_iff_iff, decide_eq_true_iff]
    exact h.isProxy header hmem
  rw [hl, hp]
  rfl

/-- **When the findings are independent.** The flags and both counts are
right exactly if no header has the pattern only in front of the offset
the header before has left; and if they are right for two orders of the
headers, the flags move with the headers. -/
theorem independent_iff (dns : DomainUtils) (proxyIp localIp : Text)
    (headers : List (Text × Text)) :
    (Independent (createAddrRegex dns localIp) (createAddrRegex dns proxyIp) (received headers)
        (judge toLocaleLowerCase dns proxyIp localIp headers) ↔
      Unskipped (createAddrRegex dns localIp) 0 ((received headers).map Prod.snd) ∧
        Unskipped (createAddrRegex dns proxyIp) 0 ((received headers).map Prod.snd)) ∧
    ∀ headers' : List (Text × Text), headers'.Perm headers →
      Independent (createAddrRegex dns localIp) (createAddrRegex dns proxyIp) (received headers)
        (judge toLocaleLowerCase dns proxyIp localIp headers) →
      Independent (createAddrRegex dns localIp) (createAddrRegex dns proxyIp) (received headers')
        (judge toLocaleLowerCase dns proxyIp localIp headers') →
      (judge toLocaleLowerCase dns proxyIp localIp headers').findings.Perm
        (judge toLocaleLowerCase dns proxyIp localIp headers).findings := by
  refine ⟨independent_iff_unskipped toLocaleLowerCase dns proxyIp localIp headers, ?_⟩
  intro headers' hperm h h'
  rw [h.findings, h'.findings]
  exact (hperm.filter _).map _

/-- A header with the address and one without it. -/
def oneForward : List (Text × Text) :=
  [("x-forwarded-for".toList, "10.0.0.1".toList), ("via".toList, "1.1 x".toList)]

theorem independent_oneForward :
    (judge id noNames "10.0.0.9".toList exampleIp.text oneForward.reverse).findings.Perm
      (judge id noNames "10.0.0.9".toList exampleIp.text oneForward).findings :=
  (independent_iff id noNames "10.0.0.9".toList exampleIp.text oneForward).2 oneForward.reverse
    (List.reverse_perm _)
    ((independent_iff id noNames "10.0.0.9".toList exampleIp.text oneForward).1.mpr
      ⟨by decide, by decide⟩)
    ((independent_iff id noNames "10.0.0.9".toList exampleIp.text oneForward.reverse).1.mpr
      ⟨by decide, by decide⟩)

/-- Two headers with the address; behind the match in the first the
second is searched from its end. -/
def twoForwards : List (Text × Text) :=
  [("x-forwarded-for".toList, "10.0.0.1".toList), ("x-real-ip".toList, "10.0.0.1".toList)]

theorem not_independent_twoForwards :
    ¬ Independent (createAddrRegex noNames exampleIp.text)
      (createAddrRegex noNames "10.0.0.9".toList)
      (received twoForwards) (judge id noNames "10.0.0.9".toList exampleIp.text twoForwards) := by
  intro h
  exact absurd h.localCount (by decide)

end LevelDetection

end ProxyBroker.Judge
