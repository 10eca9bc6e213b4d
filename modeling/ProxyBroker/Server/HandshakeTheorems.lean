/-
ProxyBroker.Server.HandshakeTheorems — what the agent makes of the answer
to CONNECT, over all sequences of events.

The chunks that were read, the errors and aborts, and the 'socket' event
decide everything (`tracks_run`): `fn` gets the verdict on the bytes that
were read, if their head is complete, and behind it what failed. The
verdict is that of the whole stream, however it is cut (`outcome_append`).
What is given out again is all that was read; what is not is dropped.

* `handshake_run` — `fn` and the bytes in any run;
* `tunnel_lost` — which bytes behind the proxy's head nobody gets.
-/
import ProxyBroker.Lib.Decimal
import ProxyBroker.Server.HttpsProxyAgent

namespace ProxyBroker.Server.HttpsProxyAgent

open Lib

/-! ## The verdict on a stream -/

/-- The empty line is there. -/
def complete (bytes : Bytes) : Bool := (indexOf? (crlfText ++ crlfText) (asciiText bytes)).isSome

def accepts (env : Env) (bytes : Bytes) : Bool := statusCode env (asciiText bytes) == some 200

def outcome (env : Env) (opts : Options) (bytes : Bytes) : Option Call :=
  if complete bytes then some (if accepts env bytes then tunnel opts else .socket none) else none

def refused (env : Env) (bytes : Bytes) : Bool := complete bytes && !accepts env bytes

theorem asciiText_append (a b : Bytes) : asciiText (a ++ b) = asciiText a ++ asciiText b :=
  List.map_append

/-- The first line is there as soon as the empty line is. -/
theorem exists_firstLine {bytes : Bytes} (h : complete bytes = true) :
    ∃ i, indexOf? crlfText (asciiText bytes) = some i := by
  obtain ⟨j, hj⟩ := Option.isSome_iff_exists.mp h
  obtain ⟨i, -, hi⟩ := indexOf?_of_prefix (by decide) (by decide)
    (List.prefix_append crlfText crlfText) hj
  exact ⟨i, hi⟩

theorem complete_append {a : Bytes} (h : complete a = true) (b : Bytes) :
    complete (a ++ b) = true := by
  obtain ⟨j, hj⟩ := Option.isSome_iff_exists.mp h
  rw [complete, asciiText_append, indexOf?_append (by decide) hj]
  rfl

theorem accepts_append (env : Env) {a : Bytes} (h : complete a = true) (b : Bytes) :
    accepts env (a ++ b) = accepts env a := by
  obtain ⟨i, hi⟩ := exists_firstLine h
  have hlen := indexOf?_length_le (by decide) hi
  have htake : (asciiText a ++ asciiText b).take i = (asciiText a).take i :=
    List.take_append_of_le_length (by omega)
  simp only [accepts, statusCode, asciiText_append, indexOf?_append (by decide) hi, hi,
    Option.getD_some, htake]

/-- **The verdict is that of the whole stream.** -/
theorem outcome_append (env : Env) (opts : Options) {a : Bytes} (h : complete a = true)
    (b : Bytes) : outcome env opts (a ++ b) = outcome env opts a := by
  simp only [outcome, h, complete_append h b, accepts_append env h b]

theorem refused_append (env : Env) {a : Bytes} (h : complete a = true) (b : Bytes) :
    refused env (a ++ b) = refused env a := by
  simp only [refused, h, complete_append h b, accepts_append env h b]

/-! ## What has happened in a run -/

def Action.chunk? : Action → Option Bytes
  | .read b => b
  | _ => none

def Action.failure? : Action → Option Call
  | .error err => some (.error (some err))
  | .abort err => some (.error err)
  | _ => none

def Action.isAbort : Action → Bool
  | .abort _ => true
  | _ => false

def Action.isError : Action → Bool
  | .error _ => true
  | _ => false

def Action.listeners? : Action → Option Nat
  | .socket n => some n
  | _ => none

/-- The chunks that were read. -/
def received (as : List Action) : List Bytes := as.filterMap Action.chunk?

def bytesOf (as : List Action) : Bytes := (received as).flatten

def failures (as : List Action) : List Call := as.filterMap Action.failure?

/-- The requests that were given the socket. -/
def given (as : List Action) : List Nat := as.filterMap Action.listeners?

theorem received_concat (as : List Action) (a : Action) :
    received (as ++ [a]) = received as ++ a.chunk?.toList := by
  cases h : a.chunk? <;> simp [received, List.filterMap_append, h]

theorem bytesOf_concat (as : List Action) (a : Action) :
    bytesOf (as ++ [a]) = bytesOf as ++ a.chunk?.getD [] := by
  rw [bytesOf, received_concat, List.flatten_append]
  cases a.chunk? <;> simp [bytesOf]

theorem failures_concat (as : List Action) (a : Action) :
    failures (as ++ [a]) = failures as ++ a.failure?.toList := by
  cases h : a.failure? <;> simp [failures, List.filterMap_append, h]

theorem given_concat (as : List Action) (a : Action) :
    given (as ++ [a]) = given as ++ a.listeners?.toList := by
  cases h : a.listeners? <;> simp [given, List.filterMap_append, h]

theorem length_failures (as : List Action) :
    (failures as).length = as.countP Action.isError + as.countP Action.isAbort := by
  induction as with
  | nil => rfl
  | cons a as ih =>
      have hcons : (failures (a :: as)).length =
          a.failure?.toList.length + (failures as).length := by
        cases h : a.failure? <;> simp [failures, h] ; omega
      rw [hcons, ih, List.countP_cons, List.countP_cons]
      cases a <;> simp [Action.failure?, Action.isError, Action.isAbort] <;> omega

/-- **The state behind a run**, read off its actions. -/
structure Tracks (env : Env) (opts : Options) (as : List Action) (s : Connect) : Prop where
  calls : s.calls = (outcome env opts (bytesOf as)).toList ++ failures as
  attached : s.attached = s.calls.isEmpty
  buffers : s.attached = true →
    s.buffers = received as ∧ s.buffersLength = (bytesOf as).length
  settled : (outcome env opts (bytesOf as)).toList.length + as.countP Action.isError ≤ 1
  aborts : as.countP Action.isAbort = (!s.abortable).toNat
  awaiting : s.awaiting = (refused env (bytesOf as) && (given as).isEmpty)
  saved : s.awaiting = true → s.saved = some (bytesOf as)
  replayed : s.replayed = if (given as).any (0 < ·) then [bytesOf as] else []
  once : (given as).length ≤ 1 ∧ (given as ≠ [] → refused env (bytesOf as) = true)
  earlier : complete (received as).dropLast.flatten = false

theorem tracks_start (env : Env) (opts : Options) : Tracks env opts [] {} := by
  have hnone : complete [] = false := by decide
  constructor <;> simp [outcome, refused, hnone, failures, received, bytesOf, given]

theorem concat_eq (list : List Bytes) : concat list list.flatten.length = list.flatten := by
  simp [concat]

variable {env : Env} {opts : Options} {as : List Action} {s s' : Connect}

/-- Nothing was decided as long as the listeners are there. -/
theorem Tracks.collecting (h : Tracks env opts as s) (hattached : s.attached = true) :
    s.calls = [] ∧ complete (bytesOf as) = false ∧ failures as = [] ∧
      as.countP Action.isError = 0 ∧ given as = [] := by
  have hcalls : s.calls = [] := by
    have hempty := h.attached
    rw [hattached] at hempty
    simpa using hempty.symm
  have hparts := h.calls
  rw [hcalls] at hparts
  obtain ⟨hout, hfail⟩ := List.append_eq_nil_iff.mp hparts.symm
  have hcomplete : complete (bytesOf as) = false := by
    cases hc : complete (bytesOf as) with
    | false => rfl
    | true => simp [outcome, hc] at hout
  have hlen := length_failures as
  rw [hfail] at hlen
  refine ⟨hcalls, hcomplete, hfail, by simp at hlen; omega, ?_⟩
  by_contra hne
  have hrefused := h.once.2 hne
  simp [refused, hcomplete] at hrefused

/-- A chunk on top of what was read. -/
theorem Tracks.ondata_eq (h : Tracks env opts as s) (hattached : s.attached = true) (b : Bytes) :
    ondata env opts s b =
      if complete (bytesOf as ++ b) then
        if accepts env (bytesOf as ++ b) then
          { s with
            buffers := []
            buffersLength := (bytesOf as ++ b).length
            attached := false
            calls := [tunnel opts] }
        else
          { s with
            buffers := []
            buffersLength := (bytesOf as ++ b).length
            attached := false
            saved := some (bytesOf as ++ b)
            awaiting := true
            calls := [.socket none] }
      else
        { s with
          buffers := received as ++ [b]
          buffersLength := (bytesOf as ++ b).length } := by
  obtain ⟨hbuffers, hlength⟩ := h.buffers hattached
  obtain ⟨hcalls, -⟩ := h.collecting hattached
  have hbytes : concat (received as ++ [b]) ((bytesOf as).length + b.length) = bytesOf as ++ b := by
    have hconcat := concat_eq (received as ++ [b])
    simpa [bytesOf] using hconcat
  simp only [ondata, hbuffers, hlength, hbytes, hcalls, complete, accepts, cleanup,
    List.nil_append, List.length_append, beq_iff_eq]
  cases indexOf? (crlfText ++ crlfText) (asciiText (bytesOf as ++ b)) with
  | none => rfl
  | some j => rfl

theorem Tracks.read (h : Tracks env opts as s) (hattached : s.attached = true) (b : Bytes) :
    Tracks env opts (as ++ [.read (some b)]) (ondata env opts s b) := by
  obtain ⟨hcalls, hcomplete, hfail, herrors, hgiven⟩ := h.collecting hattached
  have hbytes : bytesOf (as ++ [.read (some b)]) = bytesOf as ++ b := bytesOf_concat _ _
  have hreceived : received (as ++ [.read (some b)]) = received as ++ [b] := received_concat _ _
  have hfail' : failures (as ++ [.read (some b)]) = [] := by
    rw [failures_concat, hfail]
    rfl
  have hgiven' : given (as ++ [.read (some b)]) = [] := by
    rw [given_concat, hgiven]
    rfl
  have hawait := h.awaiting
  have hreplay := h.replayed
  have haborts := h.aborts
  have hearlier : complete (received as).flatten = false := hcomplete
  simp only [hgiven, refused, hcomplete] at hawait hreplay
  rw [h.ondata_eq hattached b]
  cases hnow : complete (bytesOf as ++ b) with
  | false =>
      constructor <;>
        simp [hbytes, hreceived, hfail', hgiven', outcome, refused, hnow, hcalls, herrors,
          hattached, hawait, hreplay, haborts, hearlier, Action.isError, Action.isAbort]
  | true =>
      cases haccepts : accepts env (bytesOf as ++ b) <;> constructor <;>
        simp [hbytes, hreceived, hfail', hgiven', outcome, refused, hnow, haccepts, herrors,
          hawait, hreplay, haborts, hearlier, Action.isError, Action.isAbort]

/-- An event that is only logged. -/
theorem Tracks.silent (h : Tracks env opts as s) {a : Action} (hchunk : a.chunk? = none)
    (hfailure : a.failure? = none) (herror : a.isError = false) (habort : a.isAbort = false)
    (hlisteners : a.listeners? = none) : Tracks env opts (as ++ [a]) s := by
  have hbytes : bytesOf (as ++ [a]) = bytesOf as := by simp [bytesOf_concat, hchunk]
  have hreceived : received (as ++ [a]) = received as := by simp [received_concat, hchunk]
  have hfail : failures (as ++ [a]) = failures as := by simp [failures_concat, hfailure]
  have hgiven : given (as ++ [a]) = given as := by simp [given_concat, hlisteners]
  have herrors : (as ++ [a]).countP Action.isError = as.countP Action.isError := by simp [herror]
  have haborts : (as ++ [a]).countP Action.isAbort = as.countP Action.isAbort := by simp [habort]
  refine ⟨?_, h.attached, ?_, ?_, ?_, ?_, ?_, ?_, ?_, ?_⟩
  · rw [hbytes, hfail]
    exact h.calls
  · rw [hbytes, hreceived]
    exact h.buffers
  · rw [hbytes, herrors]
    exact h.settled
  · rw [haborts]
    exact h.aborts
  · rw [hbytes, hgiven]
    exact h.awaiting
  · rw [hbytes]
    exact h.saved
  · rw [hbytes, hgiven]
    exact h.replayed
  · rw [hbytes, hgiven]
    exact h.once
  · rw [hreceived]
    exact h.earlier

theorem Tracks.error (h : Tracks env opts as s) (hattached : s.attached = true) (err : JsError) :
    Tracks env opts (as ++ [.error err])
      { s with
        attached := false
        calls := s.calls ++ [.error (some err)] } := by
  obtain ⟨hcalls, hcomplete, hfail, herrors, hgiven⟩ := h.collecting hattached
  have hbytes : bytesOf (as ++ [.error err]) = bytesOf as := by
    simp [bytesOf_concat, Action.chunk?]
  have hfail' : failures (as ++ [.error err]) = [.error (some err)] := by
    rw [failures_concat, hfail]
    rfl
  have hgiven' : given (as ++ [.error err]) = [] := by
    rw [given_concat, hgiven]
    rfl
  have hreceived : received (as ++ [.error err]) = received as := by
    simp [received_concat, Action.chunk?]
  have hearlier := h.earlier
  have hawait := h.awaiting
  have hreplay := h.replayed
  have haborts := h.aborts
  simp only [hgiven, refused, hcomplete] at hawait hreplay
  constructor <;>
    simp [hbytes, hreceived, hfail', hgiven', outcome, refused, hcomplete, hcalls, herrors, hawait,
      hreplay, haborts, hearlier, Action.isError, Action.isAbort]

theorem Tracks.abort (h : Tracks env opts as s) (habortable : s.abortable = true)
    (err : Option JsError) :
    Tracks env opts (as ++ [.abort err])
      { s with
        abortable := false
        destroyed := true
        attached := false
        calls := s.calls ++ [.error err] } := by
  have hbytes : bytesOf (as ++ [.abort err]) = bytesOf as := by
    simp [bytesOf_concat, Action.chunk?]
  have hfail : failures (as ++ [.abort err]) = failures as ++ [.error err] := failures_concat _ _
  have hgiven : given (as ++ [.abort err]) = given as := by
    simp [given_concat, Action.listeners?]
  have haborts := h.aborts
  rw [habortable] at haborts
  have hone : (as ++ [Action.abort err]).countP Action.isAbort = 1 := by
    rw [List.countP_append, haborts]
    rfl
  have herrors : (as ++ [Action.abort err]).countP Action.isError = as.countP Action.isError := by
    simp [Action.isError]
  have hreceived : received (as ++ [.abort err]) = received as := by
    simp [received_concat, Action.chunk?]
  refine ⟨?_, ?_, ?_, ?_, ?_, ?_, ?_, ?_, ?_, ?_⟩
  · simp [hbytes, hfail, h.calls]
  · simp
  · simp
  · rw [hbytes, herrors]
    exact h.settled
  · exact hone
  · rw [hbytes, hgiven]
    exact h.awaiting
  · rw [hbytes]
    exact h.saved
  · rw [hbytes, hgiven]
    exact h.replayed
  · rw [hbytes, hgiven]
    exact h.once
  · rw [hreceived]
    exact h.earlier

theorem Tracks.socket (h : Tracks env opts as s) (hawaiting : s.awaiting = true)
    (listeners : Nat) : Tracks env opts (as ++ [.socket listeners]) (onsocket s listeners) := by
  have hbytes : bytesOf (as ++ [.socket listeners]) = bytesOf as := by
    simp [bytesOf_concat, Action.chunk?]
  have hreceived : received (as ++ [.socket listeners]) = received as := by
    simp [received_concat, Action.chunk?]
  have hfail : failures (as ++ [.socket listeners]) = failures as := by
    simp [failures_concat, Action.failure?]
  have hawait := h.awaiting
  rw [hawaiting, eq_comm, Bool.and_eq_true, List.isEmpty_iff] at hawait
  obtain ⟨hrefused, hgiven⟩ := hawait
  have hgiven' : given (as ++ [.socket listeners]) = [listeners] := by
    rw [given_concat, hgiven]
    rfl
  have hreplay := h.replayed
  simp only [hgiven, List.any_nil] at hreplay
  have hcalls := h.calls
  have hattached := h.attached
  have hbuffers := h.buffers
  have hsettled := h.settled
  have haborts := h.aborts
  have hsaved := h.saved hawaiting
  have hearlier := h.earlier
  unfold onsocket
  split
  · rename_i hpos
    constructor <;>
      simp_all [Action.isError, Action.isAbort]
  · rename_i hpos
    constructor <;>
      simp_all [Action.isError, Action.isAbort]

theorem Tracks.step (h : Tracks env opts as s) {a : Action}
    (hstep : (machine env opts).step s a = some s') : Tracks env opts (as ++ [a]) s' := by
  cases a with
  | read b =>
      simp only [machine, HttpsProxyAgent.step] at hstep
      split at hstep
      · rename_i hattached
        cases b with
        | none =>
            cases hstep
            exact h.silent rfl rfl rfl rfl rfl
        | some b =>
            cases hstep
            exact h.read hattached b
      · cases hstep
  | error err =>
      simp only [machine, HttpsProxyAgent.step] at hstep
      split at hstep
      · rename_i hattached
        cases hstep
        exact h.error hattached err
      · cases hstep
  | ended =>
      simp only [machine, HttpsProxyAgent.step] at hstep
      split at hstep
      · cases hstep
        exact h.silent rfl rfl rfl rfl rfl
      · cases hstep
  | closed =>
      simp only [machine, HttpsProxyAgent.step] at hstep
      split at hstep
      · cases hstep
        exact h.silent rfl rfl rfl rfl rfl
      · cases hstep
  | abort err =>
      simp only [machine, HttpsProxyAgent.step] at hstep
      split at hstep
      · rename_i habortable
        cases hstep
        exact h.abort habortable err
      · cases hstep
  | socket listeners =>
      simp only [machine, HttpsProxyAgent.step] at hstep
      split at hstep
      · rename_i hawaiting
        cases hstep
        exact h.socket hawaiting listeners
      · cases hstep

theorem tracks_run (h : (machine env opts).run {} as = some s) : Tracks env opts as s := by
  induction as using List.reverseRecOn generalizing s with
  | nil =>
      cases h
      exact tracks_start env opts
  | append_singleton as a ih =>
      rw [Machine.run_append, Option.bind_eq_some_iff] at h
      obtain ⟨t, hrun, hstep⟩ := h
      rw [Machine.run_singleton] at hstep
      exact (ih hrun).step hstep

/-! ## Any run -/

theorem Tracks.length_calls (ht : Tracks env opts as s) : s.calls.length ≤ 2 := by
  have hsettled := ht.settled
  have haborts := ht.aborts
  have hbool := Bool.toNat_le (!s.abortable)
  rw [ht.calls, List.length_append, length_failures]
  omega

/-- The verdict is that of the stream, wherever the reading stopped. -/
theorem Tracks.verdict (ht : Tracks env opts as s) (hcomplete : complete (bytesOf as) = true)
    (rest : Bytes) : s.calls.head? = outcome env opts (bytesOf as ++ rest) := by
  rw [ht.calls, outcome_append env opts hcomplete rest, outcome, if_pos hcomplete]
  rfl

/-- Only a refused answer is given out again, as far as it was read. -/
theorem Tracks.replay (ht : Tracks env opts as s) {b : Bytes} (hb : b ∈ s.replayed) :
    s.replayed = [b] ∧ b = bytesOf as ∧ refused env (bytesOf as) = true := by
  have hreplayed := ht.replayed
  split at hreplayed
  · rename_i hany
    rw [hreplayed, List.mem_singleton] at hb
    have hgiven : given as ≠ [] := by
      intro hnil
      rw [hnil] at hany
      cases hany
    exact ⟨by rw [hreplayed, hb], hb, ht.once.2 hgiven⟩
  · rw [hreplayed] at hb
    cases hb

theorem refused_complete {bytes : Bytes} (h : refused env bytes = true) : complete bytes = true :=
  (Bool.and_eq_true_iff.mp h).1

/-- **What `fn` and a request get in a run.** `fn` is called with the
verdict on the bytes that were read, if their head is complete, and with
what failed before or behind that: twice at most. The verdict is that of
the whole stream, wherever the reading stopped. What is given out again,
with what was not read behind it, is the whole stream. -/
theorem handshake_run (h : (machine env opts).run {} as = some s) {stream rest : Bytes}
    (hstream : bytesOf as ++ rest = stream) :
    s.calls = (outcome env opts (bytesOf as)).toList ++ failures as ∧
      s.calls.length ≤ 2 ∧
      (complete (bytesOf as) = true → s.calls.head? = outcome env opts stream) ∧
      ∀ b ∈ s.replayed, s.replayed = [b] ∧ b ++ rest = stream ∧ refused env stream = true := by
  have ht := tracks_run h
  refine ⟨ht.calls, ht.length_calls, ?_, ?_⟩
  · intro hcomplete
    rw [ht.verdict hcomplete rest, hstream]
  · intro b hb
    obtain ⟨hone, hbytes, hrefused⟩ := ht.replay hb
    refine ⟨hone, by rw [hbytes, hstream], ?_⟩
    rw [← hstream, refused_append env (refused_complete hrefused)]
    exact hrefused

/-- Digits are a number, nothing is encoded. -/
def exampleEnv : Env where
  number := fun t => if t ≠ [] ∧ t.all Char.isDigit then some (Decimal.value t) else none
  base64 := id

def exampleOptions : Options where
  host := "example.org".toList
  port := 443
  secureEndpoint := true

/-- A refusal in two chunks, and an abort behind it. -/
def exampleRefusal : List Action :=
  [.read (some (Utf8.encode "HTTP/1.1 407 Authentication Required\r\n".toList)), .read none,
    .read (some (Utf8.encode "\r\nno".toList)), .socket 1, .abort none]

theorem handshake_run_refusal :
    ∃ s, (machine exampleEnv exampleOptions).run {} exampleRefusal = some s ∧
      s.calls = [.socket none, .error none] ∧
      ∃ b, s.replayed = [b] ∧ b ++ [10] = bytesOf exampleRefusal ++ [10] := by
  obtain ⟨s, hs, hgiven⟩ : ∃ s, (machine exampleEnv exampleOptions).run {} exampleRefusal = some s ∧
      s.replayed ≠ [] := by
    refine ⟨_, rfl, ?_⟩
    decide +kernel
  obtain ⟨hcalls, -, -, hreplayed⟩ := handshake_run hs rfl
  refine ⟨s, hs, ?_, ?_⟩
  · rw [hcalls]
    decide +kernel
  · obtain ⟨b, hb⟩ := List.exists_mem_of_ne_nil _ hgiven
    obtain ⟨hone, hbytes, -⟩ := hreplayed b hb
    exact ⟨b, hone, hbytes⟩

/-! ## The bytes behind the head -/

/-- A head with its empty line, and nothing behind it. -/
structure EndsHead (head : Bytes) : Prop where
  complete : complete head = true
  first : ∀ p, p <+: head → p ≠ head → HttpsProxyAgent.complete p = false

/-- What is complete goes as far as the head does. -/
theorem EndsHead.prefix_of_complete {head p q data : Bytes} (hhead : EndsHead head)
    (hp : HttpsProxyAgent.complete p = true) (heq : p ++ q = head ++ data) : head <+: p := by
  rcases List.append_eq_append_iff.mp heq with ⟨more, hmore, -⟩ | ⟨more, hmore, -⟩
  · by_cases hsame : p = head
    · rw [hsame]
    · have hnot := hhead.first p ⟨more, hmore.symm⟩ hsame
      rw [hp] at hnot
      cases hnot
  · exact ⟨more, hmore.symm⟩

/-- **What a tunnel misses**: what came behind the proxy's head in the
same chunk as its end. -/
theorem tunnel_lost (h : (machine env opts).run {} as = some s)
    (hcomplete : complete (bytesOf as) = true) {head data rest : Bytes} (hhead : EndsHead head)
    (hstream : bytesOf as ++ rest = head ++ data) :
    ∃ lost cs b, received as = cs ++ [b] ∧ bytesOf as = head ++ lost ∧ data = lost ++ rest ∧
      lost <:+ b ∧ lost ≠ b := by
  have ht := tracks_run h
  obtain ⟨lost, hlost⟩ := hhead.prefix_of_complete hcomplete hstream
  have hne : received as ≠ [] := by
    intro hnil
    rw [bytesOf, hnil] at hcomplete
    exact absurd hcomplete (by decide)
  obtain ⟨cs, b, hcs⟩ : ∃ cs b, received as = cs ++ [b] :=
    ⟨_, _, (List.dropLast_append_getLast hne).symm⟩
  have hearlier := ht.earlier
  rw [hcs, List.dropLast_concat] at hearlier
  have hsplit : cs.flatten ++ b = head ++ lost := by
    rw [hlost, bytesOf, hcs]
    simp
  refine ⟨lost, cs, b, hcs, hlost.symm, ?_, ?_⟩
  · rw [← hlost, List.append_assoc] at hstream
    exact (List.append_cancel_left hstream).symm
  · rcases List.append_eq_append_iff.mp hsplit with ⟨more, hmore, hb⟩ | ⟨more, hmore, -⟩
    · refine ⟨⟨more, hb.symm⟩, ?_⟩
      rintro rfl
      have hnil : more = [] := by simpa using hb
      rw [hnil, List.append_nil] at hmore
      rw [← hmore, hhead.complete] at hearlier
      cases hearlier
    · rw [hmore, complete_append hhead.complete] at hearlier
      cases hearlier

end ProxyBroker.Server.HttpsProxyAgent
