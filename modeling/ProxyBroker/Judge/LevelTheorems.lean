/-
ProxyBroker.Judge.LevelTheorems — the level over any sequence of calls.

`addRecvHeader` and `detect` may be called any number of times; both
patterns keep their `lastIndex` and the counters add up. The level is
nevertheless what the headers received so far make it
(`level_of_calls`), because a counter is 0 exactly as long as no header
gives a reason for it: until then `lastIndex` is 0 and every value is
searched from its start.

The four columns of the counters are four scans (`Lib.Scan`) over the
same headers; two of them have a pattern for their test, two a list of
names.
-/
import ProxyBroker.Judge.LevelDetectionTheorems
import ProxyBroker.Lib.Scan

namespace ProxyBroker.Judge

open Lib

/-! ## What a pattern finds -/

/-- The pattern occurs somewhere in the value. -/
def OccursIn (names : List Text) (value : Text) : Prop :=
  ∃ pre rest, value = pre ++ rest ∧ (matchStart names rest).isSome = true

instance (names : List Text) : DecidablePred (OccursIn names) := fun value =>
  decidable_of_iff _ (searchFrom_isSome names 0 value)

/-- The test of a pattern, with `lastIndex` as its state. -/
def testAt (names : List Text) (lastIndex : Nat) (value : Text) : Bool × Nat :=
  let regex : AddrRegex := { names := names, lastIndex := lastIndex }
  ((regex.test value).1, (regex.test value).2.lastIndex)

theorem test_names (regex : AddrRegex) (value : Text) :
    (regex.test value).2.names = regex.names := by
  unfold AddrRegex.test
  dsimp only
  split <;> rfl

theorem testAt_sound (names : List Text) (lastIndex : Nat) (value : Text)
    (h : (testAt names lastIndex value).1 = true) : OccursIn names value := by
  simp only [testAt, AddrRegex.test] at h
  split at h
  · rename_i last hlast
    split at hlast
    · cases hlast
    · have hsome : (searchFrom names lastIndex (value.drop lastIndex)).isSome = true := by
        rw [hlast]
        rfl
      obtain ⟨pre, rest, heq, hmatch⟩ := (searchFrom_isSome _ _ _).mp hsome
      refine ⟨value.take lastIndex ++ pre, rest, ?_, hmatch⟩
      rw [List.append_assoc, ← heq, List.take_append_drop]
  · cases h

theorem testAt_complete (names : List Text) (lastIndex : Nat) (value : Text)
    (hidle : lastIndex = 0) (h : OccursIn names value) :
    (testAt names lastIndex value).1 = true := by
  subst hidle
  obtain ⟨hfound, -, -⟩ := test_of_lastIndex_zero names value
  exact hfound.trans ((searchFrom_isSome names 0 value).mpr h)

theorem testAt_idle (names : List Text) (lastIndex : Nat) (value : Text) (hidle : lastIndex = 0)
    (h : (testAt names lastIndex value).1 = false) : (testAt names lastIndex value).2 = 0 := by
  subst hidle
  obtain ⟨-, -, hreset⟩ := test_of_lastIndex_zero names value
  exact congrArg AddrRegex.lastIndex (hreset h)

/-- The test of a list of names, which has no state. -/
def testKey (toLocaleLowerCase : Text → Text) (list : List Text) (s : Unit) (key : Text) :
    Bool × Unit :=
  (list.contains (toLocaleLowerCase key), s)

theorem testKey_eq (toLocaleLowerCase : Text → Text) (list : List Text) :
    testKey toLocaleLowerCase list =
      fun s key => (decide (toLocaleLowerCase key ∈ list), s) := by
  funext s key
  simp [testKey]

namespace LevelDetection

/-! ## The loop as four scans -/

variable (toLocaleLowerCase : Text → Text)

/-- The detection behind one header. -/
def detectHeader (header : Header) (d : LevelDetection) : LevelDetection :=
  { d with
    localRegex := (d.localRegex.test header.value).2
    proxyRegex := (d.proxyRegex.test header.value).2
    stats := countFlags d.stats (markHeader toLocaleLowerCase (d.localRegex.test header.value).1
      (d.proxyRegex.test header.value).1 header) }

theorem detectHeaders_cons (header : Header) (headers : List Header) (d : LevelDetection) :
    detectHeaders toLocaleLowerCase (header :: headers) d =
      (markHeader toLocaleLowerCase (d.localRegex.test header.value).1
          (d.proxyRegex.test header.value).1 header ::
          (detectHeaders toLocaleLowerCase headers (d.detectHeader toLocaleLowerCase header)).1,
        (detectHeaders toLocaleLowerCase headers (d.detectHeader toLocaleLowerCase header)).2) :=
  rfl

theorem detectHeaders_received (headers : List Header) (d : LevelDetection) :
    (detectHeaders toLocaleLowerCase headers d).1.map (fun h => (h.key, h.value)) =
      headers.map (fun h => (h.key, h.value)) := by
  induction headers generalizing d with
  | nil => rfl
  | cons header headers ih =>
      rw [detectHeaders_cons, List.map_cons, List.map_cons, ih]
      rfl

/-- A column of the headers and the counters behind the loop. -/
def column {σ : Type} (flag : Header → Bool) (state : LevelDetection → σ)
    (count : LevelDetection → Nat) (r : List Header × LevelDetection) : List Bool × σ × Nat :=
  (r.1.map flag, state r.2, count r.2)

theorem detectHeaders_local (headers : List Header) (d : LevelDetection) :
    column (·.hasLocalIp) (·.localRegex.lastIndex) (·.stats.hasLocalIp)
        (detectHeaders toLocaleLowerCase headers d) =
      scan (testAt d.localRegex.names) d.localRegex.lastIndex d.stats.hasLocalIp
        (headers.map (fun h => (h.hasLocalIp, h.value))) := by
  induction headers generalizing d with
  | nil => rfl
  | cons header headers ih =>
      have hnext := ih (d.detectHeader toLocaleLowerCase header)
      have hnames : (d.detectHeader toLocaleLowerCase header).localRegex.names =
        d.localRegex.names := test_names _ _
      rw [hnames] at hnext
      exact congrArg (fun r : List Bool × Nat × Nat =>
        ((header.hasLocalIp || (d.localRegex.test header.value).1) :: r.1, r.2)) hnext

theorem detectHeaders_proxy (headers : List Header) (d : LevelDetection) :
    column (·.hasProxyIp) (·.proxyRegex.lastIndex) (·.stats.hasProxyIp)
        (detectHeaders toLocaleLowerCase headers d) =
      scan (testAt d.proxyRegex.names) d.proxyRegex.lastIndex d.stats.hasProxyIp
        (headers.map (fun h => (h.hasProxyIp, h.value))) := by
  induction headers generalizing d with
  | nil => rfl
  | cons header headers ih =>
      have hnext := ih (d.detectHeader toLocaleLowerCase header)
      have hnames : (d.detectHeader toLocaleLowerCase header).proxyRegex.names =
        d.proxyRegex.names := test_names _ _
      rw [hnames] at hnext
      exact congrArg (fun r : List Bool × Nat × Nat =>
        ((header.hasProxyIp || (d.proxyRegex.test header.value).1) :: r.1, r.2)) hnext

/-- The patterns stay the same, but for their `lastIndex`. -/
theorem detectHeaders_names (headers : List Header) (d : LevelDetection) :
    (detectHeaders toLocaleLowerCase headers d).2.localRegex.names = d.localRegex.names ∧
      (detectHeaders toLocaleLowerCase headers d).2.proxyRegex.names = d.proxyRegex.names := by
  induction headers generalizing d with
  | nil => exact ⟨rfl, rfl⟩
  | cons header headers ih =>
      rw [detectHeaders_cons]
      obtain ⟨hlocal, hproxy⟩ := ih (d.detectHeader toLocaleLowerCase header)
      exact ⟨hlocal.trans (test_names _ _), hproxy.trans (test_names _ _)⟩

theorem detectHeaders_forward (headers : List Header) (d : LevelDetection) :
    column (·.isForward) (fun _ => ()) (·.stats.isForward)
        (detectHeaders toLocaleLowerCase headers d) =
      scan (testKey toLocaleLowerCase httpForwardHeader) () d.stats.isForward
        (headers.map (fun h => (h.isForward, h.key))) := by
  rw [testKey_eq]
  induction headers generalizing d with
  | nil => rfl
  | cons header headers ih =>
      exact congrArg (fun r : List Bool × Unit × Nat =>
        ((header.isForward || decide (toLocaleLowerCase header.key ∈ httpForwardHeader)) :: r.1,
          r.2)) (ih (d.detectHeader toLocaleLowerCase header))

theorem detectHeaders_via (headers : List Header) (d : LevelDetection) :
    column (·.isVia) (fun _ => ()) (·.stats.isVia) (detectHeaders toLocaleLowerCase headers d) =
      scan (testKey toLocaleLowerCase httpViaHeader) () d.stats.isVia
        (headers.map (fun h => (h.isVia, h.key))) := by
  rw [testKey_eq]
  induction headers generalizing d with
  | nil => rfl
  | cons header headers ih =>
      exact congrArg (fun r : List Bool × Unit × Nat =>
        ((header.isVia || decide (toLocaleLowerCase header.key ∈ httpViaHeader)) :: r.1,
          r.2)) (ih (d.detectHeader toLocaleLowerCase header))

/-! ## The counters -/

/-- What is known of a column: a flag or a count has a reason, and as long
as there is no count the test is idle. -/
structure Column {σ : Type} (idle : σ → Prop) (reason : Prop) (flags : List Bool) (s : σ)
    (n : Nat) : Prop where
  agrees : Agrees idle reason s n
  flagged : ∀ flag ∈ flags, flag = true → reason

/-- New headers come without a flag. -/
theorem Column.append {σ : Type} {idle : σ → Prop} {reason reason' : Prop} {flags : List Bool}
    {s : σ} {n : Nat} (h : Column idle reason flags s n) (himp : reason → reason')
    {more : List Bool} (hmore : ∀ flag ∈ more, flag = false) :
    Column idle reason' (flags ++ more) s n := by
  refine ⟨h.agrees.mono himp, ?_⟩
  intro flag hflag hset
  rcases List.mem_append.mp hflag with hflag | hflag
  · exact himp (h.flagged flag hflag hset)
  · rw [hmore flag hflag] at hset
    cases hset

/-- A column behind the loop: there is a count exactly if there is a
reason. -/
theorem Column.scan {σ β : Type} {test : σ → β → Bool × σ} {found : β → Prop} {idle : σ → Prop}
    (hsound : ∀ s b, (test s b).1 = true → found b)
    (hcomplete : ∀ s b, idle s → found b → (test s b).1 = true)
    (hidle : ∀ s b, idle s → (test s b).1 = false → idle (test s b).2)
    {items : List (Bool × β)} {s : σ} {n : Nat}
    (h : Column idle (∃ p ∈ items, found p.2) (items.map Prod.fst) s n)
    {flags : List Bool} {s' : σ} {n' : Nat} (heq : (flags, s', n') = Lib.scan test s n items) :
    Column idle (∃ p ∈ items, found p.2) flags s' n' ∧ (0 < n' ↔ ∃ p ∈ items, found p.2) := by
  have hitems : ∀ p ∈ items, p.1 = true ∨ found p.2 → ∃ p ∈ items, found p.2 := by
    intro p hp hreason
    rcases hreason with hflag | hfound
    · exact h.flagged p.1 (List.mem_map_of_mem hp) hflag
    · exact ⟨p, hp, hfound⟩
  obtain ⟨hagrees, hnone, hflags⟩ := scan_agrees test hsound hcomplete hidle h.agrees hitems
  rw [← heq] at hagrees hnone hflags
  refine ⟨⟨hagrees, hflags⟩, hagrees.counted, ?_⟩
  rintro ⟨p, hp, hfound⟩
  refine Nat.pos_of_ne_zero ?_
  intro hzero
  exact hnone hzero p hp hfound

/-- **The counters of a detection**: each column against the headers `hs`
received so far. -/
structure Counts (locals proxies : List Text) (hs : List (Text × Text)) (d : LevelDetection) :
    Prop where
  localNames : d.localRegex.names = locals
  proxyNames : d.proxyRegex.names = proxies
  received : d.recvHeaders.map (fun h => (h.key, h.value)) = hs
  isLocal : Column (· = 0) (∃ h ∈ hs, OccursIn locals h.2) (d.recvHeaders.map (·.hasLocalIp))
    d.localRegex.lastIndex d.stats.hasLocalIp
  isProxy : Column (· = 0) (∃ h ∈ hs, OccursIn proxies h.2) (d.recvHeaders.map (·.hasProxyIp))
    d.proxyRegex.lastIndex d.stats.hasProxyIp
  isForward : Column (fun _ : Unit => True) (∃ h ∈ hs, toLocaleLowerCase h.1 ∈ httpForwardHeader)
    (d.recvHeaders.map (·.isForward)) () d.stats.isForward
  isVia : Column (fun _ : Unit => True) (∃ h ∈ hs, toLocaleLowerCase h.1 ∈ httpViaHeader)
    (d.recvHeaders.map (·.isVia)) () d.stats.isVia

theorem counts_prepare (dns : DomainUtils) (proxyIp localIp : Text) :
    Counts toLocaleLowerCase (createAddrRegex dns localIp) (createAddrRegex dns proxyIp) []
      ({ proxyIp := proxyIp, localIp := localIp : LevelDetection }.prepare dns) := by
  have hcolumn : ∀ {σ : Type} {idle : σ → Prop} {reason : Prop} {s : σ}, idle s →
      Column idle reason [] s 0 := by
    intro σ idle reason s hs
    refine ⟨⟨fun h => absurd h (Nat.lt_irrefl 0), fun _ => hs⟩, ?_⟩
    intro flag hflag
    cases hflag
  exact ⟨rfl, rfl, rfl, hcolumn rfl, hcolumn rfl, hcolumn trivial, hcolumn trivial⟩

variable {toLocaleLowerCase} {locals proxies : List Text} {hs : List (Text × Text)}
  {d : LevelDetection}

theorem Counts.addRecvHeader (h : Counts toLocaleLowerCase locals proxies hs d)
    (headers : List (Text × Text)) :
    Counts toLocaleLowerCase locals proxies (hs ++ LevelDetection.received headers)
      (d.addRecvHeader headers) := by
  have hmore : ∀ p : Text × Text → Prop, (∃ x ∈ hs, p x) →
      ∃ x ∈ hs ++ LevelDetection.received headers, p x := by
    rintro p ⟨x, hx, hp⟩
    exact ⟨x, List.mem_append_left _ hx, hp⟩
  have hflags : ∀ flag : Header → Bool, (∀ key value, flag { key := key, value := value } = false) →
      ∀ b ∈ ((LevelDetection.received headers).map
        (fun x => ({ key := x.1, value := x.2 } : Header))).map flag, b = false := by
    intro flag hflag b hb
    simp only [List.mem_map] at hb
    obtain ⟨header, ⟨x, -, rfl⟩, rfl⟩ := hb
    exact hflag x.1 x.2
  refine ⟨h.localNames, h.proxyNames, ?_, ?_, ?_, ?_, ?_⟩
  · simp [LevelDetection.addRecvHeader, ← h.received, Function.comp_def]
  · simp only [LevelDetection.addRecvHeader, List.map_append]
    exact h.isLocal.append (hmore _) (hflags _ (fun _ _ => rfl))
  · simp only [LevelDetection.addRecvHeader, List.map_append]
    exact h.isProxy.append (hmore _) (hflags _ (fun _ _ => rfl))
  · simp only [LevelDetection.addRecvHeader, List.map_append]
    exact h.isForward.append (hmore _) (hflags _ (fun _ _ => rfl))
  · simp only [LevelDetection.addRecvHeader, List.map_append]
    exact h.isVia.append (hmore _) (hflags _ (fun _ _ => rfl))

/-! ## The level -/

/-- The level the headers received make. -/
def levelOf (toLocaleLowerCase : Text → Text) (locals proxies : List Text)
    (hs : List (Text × Text)) : Int :=
  if ∃ h ∈ hs, OccursIn locals h.2 then 3
  else if ∀ h ∈ hs, ¬ OccursIn proxies h.2 ∧
      httpForwardHeader.contains (toLocaleLowerCase h.1) = false ∧
      httpViaHeader.contains (toLocaleLowerCase h.1) = false then 1
  else 2

theorem levelOf_perm (toLocaleLowerCase : Text → Text) (locals proxies : List Text)
    {hs hs' : List (Text × Text)} (h : hs.Perm hs') :
    levelOf toLocaleLowerCase locals proxies hs = levelOf toLocaleLowerCase locals proxies hs' := by
  simp only [levelOf, h.mem_iff]

/-- A column behind `detect`, in terms of the headers received. -/
theorem Counts.column (h : Counts toLocaleLowerCase locals proxies hs d) {σ α : Type}
    (test : σ → α → Bool × σ) (found : α → Prop) {idle : σ → Prop}
    (hsound : ∀ s a, (test s a).1 = true → found a)
    (hcomplete : ∀ s a, idle s → found a → (test s a).1 = true)
    (hidle : ∀ s a, idle s → (test s a).1 = false → idle (test s a).2)
    {flag : Header → Bool} {state : LevelDetection → σ} {count : LevelDetection → Nat}
    (item : Text × Text → α) {s : σ} {n : Nat} {r : List Header × LevelDetection}
    (hcolumn : Column idle (∃ x ∈ hs, found (item x)) (d.recvHeaders.map flag) s n)
    (heq : LevelDetection.column flag state count r =
      scan test s n (d.recvHeaders.map (fun x => (flag x, item (x.key, x.value))))) :
    Column idle (∃ x ∈ hs, found (item x)) (r.1.map flag) (state r.2) (count r.2) ∧
      (0 < count r.2 ↔ ∃ x ∈ hs, found (item x)) := by
  have hreason : (∃ x ∈ hs, found (item x)) ↔
      ∃ p ∈ d.recvHeaders.map (fun x => (flag x, item (x.key, x.value))), found p.2 := by
    rw [← h.received]
    simp
  have hflags : d.recvHeaders.map flag =
      (d.recvHeaders.map (fun x => (flag x, item (x.key, x.value)))).map Prod.fst := by
    simp [Function.comp_def]
  rw [hreason, hflags] at hcolumn
  rw [hreason]
  exact hcolumn.scan hsound hcomplete hidle heq

/-- **One `detect`.** -/
theorem Counts.detect (h : Counts toLocaleLowerCase locals proxies hs d) :
    Counts toLocaleLowerCase locals proxies hs (d.detect toLocaleLowerCase) ∧
      (d.detect toLocaleLowerCase).level = levelOf toLocaleLowerCase locals proxies hs := by
  have hscanLocal := detectHeaders_local toLocaleLowerCase d.recvHeaders d
  have hscanProxy := detectHeaders_proxy toLocaleLowerCase d.recvHeaders d
  rw [h.localNames] at hscanLocal
  rw [h.proxyNames] at hscanProxy
  obtain ⟨hlocal, hlocalIff⟩ := h.column (testAt locals) (OccursIn locals)
    (testAt_sound locals) (testAt_complete locals) (testAt_idle locals) Prod.snd h.isLocal
    hscanLocal
  obtain ⟨hproxy, hproxyIff⟩ := h.column (testAt proxies) (OccursIn proxies)
    (testAt_sound proxies) (testAt_complete proxies) (testAt_idle proxies) Prod.snd h.isProxy
    hscanProxy
  obtain ⟨hforward, hforwardIff⟩ := h.column
    (testKey toLocaleLowerCase httpForwardHeader)
    (fun key => toLocaleLowerCase key ∈ httpForwardHeader)
    (fun _ _ htest => List.contains_iff_mem.mp htest)
    (fun _ _ _ hfound => List.contains_iff_mem.mpr hfound)
    (fun _ _ _ _ => trivial) Prod.fst h.isForward
    (detectHeaders_forward toLocaleLowerCase d.recvHeaders d)
  obtain ⟨hvia, hviaIff⟩ := h.column
    (testKey toLocaleLowerCase httpViaHeader)
    (fun key => toLocaleLowerCase key ∈ httpViaHeader)
    (fun _ _ htest => List.contains_iff_mem.mp htest)
    (fun _ _ _ hfound => List.contains_iff_mem.mpr hfound)
    (fun _ _ _ _ => trivial) Prod.fst h.isVia
    (detectHeaders_via toLocaleLowerCase d.recvHeaders d)
  obtain ⟨hlocalNames, hproxyNames⟩ := detectHeaders_names toLocaleLowerCase d.recvHeaders d
  refine ⟨⟨?_, ?_, ?_, hlocal, hproxy, hforward, hvia⟩, ?_⟩
  · exact hlocalNames.trans h.localNames
  · exact hproxyNames.trans h.proxyNames
  · exact (detectHeaders_received toLocaleLowerCase d.recvHeaders d).trans h.received
  · simp only [LevelDetection.detect, hasLocalIP, hasProxyIP, hasViaHeader, hasForwardHeader,
      hlocalIff, hproxyIff, hforwardIff, hviaIff, levelOf]
    by_cases hl : ∃ x ∈ hs, OccursIn locals x.2
    · simp [hl]
    · have hiff : (∀ x ∈ hs, ¬ OccursIn proxies x.2 ∧
            httpForwardHeader.contains (toLocaleLowerCase x.1) = false ∧
            httpViaHeader.contains (toLocaleLowerCase x.1) = false) ↔
          (¬ ∃ x ∈ hs, OccursIn proxies x.2) ∧
            (¬ ∃ x ∈ hs, toLocaleLowerCase x.1 ∈ httpViaHeader) ∧
            ¬ ∃ x ∈ hs, toLocaleLowerCase x.1 ∈ httpForwardHeader := by
        simp only [List.contains_eq_mem, decide_eq_false_iff_not]
        grind
      by_cases hp : ∃ x ∈ hs, OccursIn proxies x.2 <;>
        by_cases hv : ∃ x ∈ hs, toLocaleLowerCase x.1 ∈ httpViaHeader <;>
          by_cases hf : ∃ x ∈ hs, toLocaleLowerCase x.1 ∈ httpForwardHeader <;>
            simp only [hl, hiff, hp, hv, hf] <;> simp

/-! ## Any sequence of calls -/

inductive Call where
  | addRecvHeader (headers : List (Text × Text))
  | detect
  deriving DecidableEq, Repr

def call (toLocaleLowerCase : Text → Text) (d : LevelDetection) : Call → LevelDetection
  | .addRecvHeader headers => d.addRecvHeader headers
  | .detect => d.detect toLocaleLowerCase

/-- A prepared detection behind its calls. -/
def runCalls (toLocaleLowerCase : Text → Text) (dns : DomainUtils) (proxyIp localIp : Text)
    (calls : List Call) : LevelDetection :=
  calls.foldl (call toLocaleLowerCase)
    ({ proxyIp := proxyIp, localIp := localIp : LevelDetection }.prepare dns)

/-- The headers other than host received by the calls. -/
def receivedBy (calls : List Call) : List (Text × Text) :=
  calls.flatMap (fun c =>
    match c with
    | .addRecvHeader headers => LevelDetection.received headers
    | .detect => [])

theorem runCalls_concat (toLocaleLowerCase : Text → Text) (dns : DomainUtils)
    (proxyIp localIp : Text) (calls : List Call) (c : Call) :
    runCalls toLocaleLowerCase dns proxyIp localIp (calls ++ [c]) =
      call toLocaleLowerCase (runCalls toLocaleLowerCase dns proxyIp localIp calls) c := by
  rw [runCalls, List.foldl_append]
  rfl

theorem receivedBy_concat (calls : List Call) (c : Call) :
    receivedBy (calls ++ [c]) = receivedBy calls ++ receivedBy [c] := List.flatMap_append

theorem counts_run (toLocaleLowerCase : Text → Text) (dns : DomainUtils) (proxyIp localIp : Text)
    (calls : List Call) :
    Counts toLocaleLowerCase (createAddrRegex dns localIp) (createAddrRegex dns proxyIp)
      (receivedBy calls) (runCalls toLocaleLowerCase dns proxyIp localIp calls) := by
  induction calls using List.reverseRecOn with
  | nil => exact counts_prepare toLocaleLowerCase dns proxyIp localIp
  | append_singleton calls c ih =>
      rw [runCalls_concat, receivedBy_concat]
      cases c with
      | addRecvHeader headers =>
          have hone : receivedBy [.addRecvHeader headers] = LevelDetection.received headers :=
            List.append_nil _
          rw [hone]
          exact ih.addRecvHeader headers
      | detect =>
          have hone : receivedBy [.detect] = [] := rfl
          rw [hone, List.append_nil]
          exact ih.detect.1

/-- **The level over any sequence of calls.** Behind every `detect` the
level is what the headers received so far make it; so it does not depend
on their order. -/
theorem level_of_calls (toLocaleLowerCase : Text → Text) (dns : DomainUtils)
    (proxyIp localIp : Text) (calls : List Call) :
    (runCalls toLocaleLowerCase dns proxyIp localIp (calls ++ [.detect])).level =
        levelOf toLocaleLowerCase (createAddrRegex dns localIp) (createAddrRegex dns proxyIp)
          (receivedBy calls) ∧
      ∀ calls' : List Call, (receivedBy calls').Perm (receivedBy calls) →
        (runCalls toLocaleLowerCase dns proxyIp localIp (calls' ++ [.detect])).level =
          (runCalls toLocaleLowerCase dns proxyIp localIp (calls ++ [.detect])).level := by
  have hlevel : ∀ cs : List Call,
      (runCalls toLocaleLowerCase dns proxyIp localIp (cs ++ [.detect])).level =
        levelOf toLocaleLowerCase (createAddrRegex dns localIp) (createAddrRegex dns proxyIp)
          (receivedBy cs) := by
    intro cs
    rw [runCalls_concat]
    exact (counts_run toLocaleLowerCase dns proxyIp localIp cs).detect.2
  refine ⟨hlevel calls, ?_⟩
  intro calls' hperm
  rw [hlevel calls', hlevel calls]
  exact levelOf_perm toLocaleLowerCase _ _ hperm

end LevelDetection

end ProxyBroker.Judge
