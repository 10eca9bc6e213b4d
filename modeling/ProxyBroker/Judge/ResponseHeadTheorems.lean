/-
ProxyBroker.Judge.ResponseHeadTheorems — the head of a response does not
depend on how the response is cut into chunks.

`onSocketData_append` is the step: two chunks one behind the other are
one chunk, for the whole state of the monitor. It needs no condition on
the state; of the bytes it needs that they are ASCII, so that characters
are not cut, and that no chunk looks like TLS. `receive_flatten` is the
run.

What the head decides is said apart from the code: `CompleteHead` is the
text in front of the first empty line, `Refusing` a status line with a
code that is not 2xx. `receive_chunks` puts both together.
-/
import ProxyBroker.Judge.RequestResponseMonitor
import ProxyBroker.Lib.Decimal

namespace ProxyBroker.Judge

open Lib Server Proxy

namespace RequestResponseMonitor

/-! ## Bytes -/

/-- An ASCII byte that begins no TLS record. -/
def Plain (b : UInt8) : Prop := b < 0x80 ∧ b ≠ 0x16 ∧ b ≠ 0x00

instance (b : UInt8) : Decidable (Plain b) :=
  inferInstanceAs (Decidable (b < 0x80 ∧ b ≠ 0x16 ∧ b ≠ 0x00))

def PlainBytes (data : Bytes) : Prop := ∀ b ∈ data, Plain b

/-- A response of ASCII bytes as text. -/
def responseText (response : Bytes) : Text := response.map (fun b => Char.ofNat b.toNat)

theorem PlainBytes.append {a b : Bytes} (ha : PlainBytes a) (hb : PlainBytes b) :
    PlainBytes (a ++ b) := by
  intro x hx
  rcases List.mem_append.mp hx with h | h
  · exact ha x h
  · exact hb x h

theorem PlainBytes.startsTls {data : Bytes} (h : PlainBytes data) :
    Monitor.startsTls data = false := by
  cases data with
  | nil => rfl
  | cons b data =>
      have hb := h b List.mem_cons_self
      have hhigh : b ≠ 0x80 := by
        rintro rfl
        exact absurd hb.1 (by decide)
      simp [Monitor.startsTls, hb.2.1, hb.2.2, hhigh]

theorem PlainBytes.decode {data : Bytes} (h : PlainBytes data) :
    Utf8.decode data = responseText data :=
  Utf8.decode_of_ascii (fun b hb => (h b hb).1)

theorem responseText_append (a b : Bytes) :
    responseText (a ++ b) = responseText a ++ responseText b := List.map_append

/-! ## One chunk -/

namespace Monitor

theorem onHead_of_receivedHead (head : Text) (n : Nat) (s : Text) (m : Monitor) :
    { m with length := n, receivedHead := s }.onHead head = { m with length := n }.onHead head :=
  rfl

theorem onHead_length (head : Text) (n : Nat) (m : Monitor) :
    { m with length := n }.onHead head = { m.onHead head with length := n } := by
  unfold onHead addServerLog
  simp only [foldl_addLog]
  split <;> rfl

@[simp] theorem onHead_receivedHead (head : Text) (m : Monitor) :
    (m.onHead head).receivedHead = head := by
  unfold onHead addServerLog
  simp only [foldl_addLog]
  split <;> rfl

@[simp] theorem onHead_receivedHeadDone (head : Text) (m : Monitor) :
    (m.onHead head).receivedHeadDone = true := by
  unfold onHead addServerLog
  simp only [foldl_addLog]
  split <;> rfl

theorem onHead_destroyed (head : Text) (m : Monitor) :
    (m.onHead head).destroyed =
      if refuses (JsText.beforeFirst '\n' head) then
        m.destroyed ++ [JsText.beforeFirst '\n' head] else m.destroyed := by
  have hhead : (head.splitOn '\n').headD [] = JsText.beforeFirst '\n' head := by
    rw [List.headD_eq_head?_getD, JsText.splitOn_head?]
    rfl
  unfold onHead addServerLog
  simp only [foldl_addLog, hhead]
  split <;> rfl

/-- Once the head is there, chunks are only counted. -/
theorem onSocketData_done {m : Monitor} (h : m.receivedHeadDone = true) (data : Bytes) :
    m.onSocketData data = { m with length := m.length + data.length } := by
  simp [onSocketData, h]

theorem onSocketData_open {m : Monitor} (h : m.receivedHeadDone = false) {data : Bytes}
    (hplain : PlainBytes data)
    (hnone : indexOf? ServerConnection.crlfcrlfText (m.receivedHead ++ responseText data) = none) :
    m.onSocketData data =
      { m with
        length := m.length + data.length
        receivedHead := m.receivedHead ++ responseText data } := by
  simp [onSocketData, h, hplain.startsTls, hplain.decode, hnone]

theorem onSocketData_complete {m : Monitor} (h : m.receivedHeadDone = false) {data : Bytes}
    (hplain : PlainBytes data) {i : Nat}
    (hsome : indexOf? ServerConnection.crlfcrlfText (m.receivedHead ++ responseText data) =
      some i) :
    m.onSocketData data =
      { m.onHead ((m.receivedHead ++ responseText data).take i) with
        length := m.length + data.length } := by
  rw [← onHead_length]
  simp [onSocketData, h, hplain.startsTls, hplain.decode, hsome, beforeEmptyLine,
    splitSeq_of_some (by decide) hsome]

/-- **Two chunks are one.** -/
theorem onSocketData_append (m : Monitor) {data rest : Bytes} (hdata : PlainBytes data)
    (hrest : PlainBytes rest) :
    (m.onSocketData data).onSocketData rest = m.onSocketData (data ++ rest) := by
  have hboth := hdata.append hrest
  cases hdone : m.receivedHeadDone with
  | true =>
      rw [onSocketData_done hdone data, onSocketData_done hdone (data ++ rest),
        onSocketData_done (by exact hdone)]
      simp [Nat.add_assoc]
  | false =>
      cases hfirst : indexOf? ServerConnection.crlfcrlfText
          (m.receivedHead ++ responseText data) with
      | some i =>
          -- the first chunk ends the head: what follows does not move its end
          have hlater := indexOf?_append (by decide) hfirst (responseText rest)
          have hle : i ≤ (m.receivedHead ++ responseText data).length := by
            have := indexOf?_length_le (by decide) hfirst
            omega
          rw [List.append_assoc, ← responseText_append] at hlater
          rw [onSocketData_complete hdone hdata hfirst, onSocketData_complete hdone hboth hlater,
            onSocketData_done (by simp), responseText_append, ← List.append_assoc,
            List.take_append_of_le_length hle]
          simp [Nat.add_assoc]
      | none =>
          -- the first chunk is kept, and the second is read behind it
          have hopen := onSocketData_open hdone hdata hfirst
          have hdone' : (m.onSocketData data).receivedHeadDone = false := by rw [hopen]; exact hdone
          have hhead : (m.onSocketData data).receivedHead ++ responseText rest =
              m.receivedHead ++ responseText (data ++ rest) := by
            rw [hopen, responseText_append, List.append_assoc]
          cases hsecond : indexOf? ServerConnection.crlfcrlfText
              (m.receivedHead ++ responseText (data ++ rest)) with
          | none =>
              rw [onSocketData_open hdone hboth hsecond,
                onSocketData_open hdone' hrest (by rw [hhead, hsecond]), hhead, hopen]
              simp [Nat.add_assoc]
          | some i =>
              rw [onSocketData_complete hdone hboth hsecond,
                onSocketData_complete hdone' hrest (by rw [hhead, hsecond]), hhead, hopen,
                onHead_of_receivedHead, onHead_length]
              simp [Nat.add_assoc]

/-! ## Whole responses -/

/-- Nothing of a response has been read. -/
structure Unread (m : Monitor) : Prop where
  head : m.receivedHead = []
  notDone : m.receivedHeadDone = false
  kept : m.destroyed = []

/-- A chunk without bytes is no chunk. -/
theorem onSocketData_nil {m : Monitor} (h : m.Unread) : m.onSocketData [] = m := by
  have hopen := @onSocketData_open m h.notDone [] (by simp [PlainBytes])
    (by rw [h.head]; decide)
  rw [hopen]
  simp [responseText]

/-- **Chunks one behind the other are one chunk.** -/
theorem receive_flatten {m : Monitor} (hm : m.Unread) {chunks : List Bytes}
    (hplain : ∀ c ∈ chunks, PlainBytes c) : m.receive chunks = m.onSocketData chunks.flatten := by
  have hmore : ∀ (chunks : List Bytes), (∀ c ∈ chunks, PlainBytes c) → ∀ first,
      PlainBytes first →
        (m.onSocketData first).receive chunks = m.onSocketData (first ++ chunks.flatten) := by
    intro chunks
    induction chunks with
    | nil =>
        intro _ first _
        simp [receive]
    | cons c chunks ih =>
        intro hchunks first hfirst
        have hc := hchunks c List.mem_cons_self
        calc
          (m.onSocketData first).receive (c :: chunks)
            = ((m.onSocketData first).onSocketData c).receive chunks := rfl
          _ = (m.onSocketData (first ++ c)).receive chunks := by
                rw [onSocketData_append m hfirst hc]
          _ = m.onSocketData (first ++ (c :: chunks).flatten) := by
                rw [ih (fun c' h => hchunks c' (List.mem_cons_of_mem _ h)) _ (hfirst.append hc),
                  List.append_assoc, List.flatten_cons]
  have hall := hmore chunks hplain [] (by simp [PlainBytes])
  rwa [onSocketData_nil hm, List.nil_append] at hall

end Monitor

/-! ## What the head decides -/

/-- `head` is the text in front of the first empty line of `s`. -/
structure CompleteHead (s head : Text) : Prop where
  ends : head ++ ServerConnection.crlfcrlfText <+: s
  first : ∀ head', head' ++ ServerConnection.crlfcrlfText <+: s → head.length ≤ head'.length

/-- Three fields or more between single blanks, the second a code of three
digits that is not 2xx. -/
structure Refusing (line : Text) : Prop where
  fields : ∃ version code reason, line = version ++ ' ' :: (code ++ ' ' :: reason) ∧
    ' ' ∉ version ∧ ' ' ∉ code ∧ code.length = 3 ∧ Decimal.Digits code ∧
      (Decimal.value code < 200 ∨ 299 < Decimal.value code)

theorem completeHead_iff {s head : Text} :
    CompleteHead s head ↔
      ∃ i, indexOf? ServerConnection.crlfcrlfText s = some i ∧ head = s.take i := by
  have hne : ServerConnection.crlfcrlfText ≠ [] := by decide
  have hends : ∀ h : Text, h ++ ServerConnection.crlfcrlfText <+: s →
      h = s.take h.length ∧ ServerConnection.crlfcrlfText <+: s.drop h.length := by
    rintro h ⟨rest, rfl⟩
    refine ⟨?_, rest, ?_⟩
    · rw [List.append_assoc, List.take_left]
    · rw [List.append_assoc, List.drop_left]
  constructor
  · rintro ⟨hend, hfirst⟩
    obtain ⟨htake, hdrop⟩ := hends head hend
    refine ⟨head.length, (indexOf?_eq_some_iff hne).mpr ⟨hdrop, ?_⟩, htake⟩
    rintro j hj ⟨rest, hrest⟩
    have hle := hfirst (s.take j)
      ⟨rest, by rw [List.append_assoc, hrest, List.take_append_drop]⟩
    have := List.length_take_le j s
    omega
  · rintro ⟨i, hindex, rfl⟩
    obtain ⟨⟨rest, hrest⟩, hbefore⟩ := (indexOf?_eq_some_iff hne).mp hindex
    refine ⟨⟨rest, by rw [List.append_assoc, hrest, List.take_append_drop]⟩, ?_⟩
    intro head' hend
    by_contra hlt
    have hle := List.length_take_le i s
    exact hbefore head'.length (by omega) (hends head' hend).2

theorem threeDigits_iff {code : Text} :
    Monitor.threeDigits code = true ↔ code.length = 3 ∧ Decimal.Digits code := by
  simp [Monitor.threeDigits, Decimal.digits_iff_all]

/-- The test of the code is the condition on the line. -/
theorem refuses_iff (line : Text) : Monitor.refuses line = true ↔ Refusing line := by
  have hcode : ∀ version code reason : Text, ' ' ∉ version → ' ' ∉ code →
      (Monitor.refuses (version ++ ' ' :: (code ++ ' ' :: reason)) = true ↔
        code.length = 3 ∧ Decimal.Digits code ∧
          (Decimal.value code < 200 ∨ 299 < Decimal.value code)) := by
    intro version code reason hversion hcode
    obtain ⟨x, xs, hx⟩ := List.exists_cons_of_ne_nil (List.splitOn_ne_nil ' ' reason)
    have hsplit : JsText.splitLimit ' ' 3 (version ++ ' ' :: (code ++ ' ' :: reason)) =
        [version, code, x] := by
      rw [JsText.splitLimit, List.splitOn_append_cons_self_of_not_mem hversion,
        List.splitOn_append_cons_self_of_not_mem hcode, hx]
      rfl
    simp only [Monitor.refuses, hsplit, Bool.and_eq_true, threeDigits_iff, and_assoc]
    refine and_congr_right fun hlength => and_congr_right fun hdigits => ?_
    have hne : code ≠ [] := by
      rintro rfl
      cases hlength
    rw [Decimal.parseInt_digits hne hdigits]
    simp
    omega
  constructor
  · intro h
    -- with fewer than two blanks there are not three fields
    by_cases hfirst : ' ' ∈ line
    · obtain ⟨version, rest, rfl, hversion⟩ := List.eq_append_cons_of_mem hfirst
      by_cases hsecond : ' ' ∈ rest
      · obtain ⟨code, reason, rfl, hblank⟩ := List.eq_append_cons_of_mem hsecond
        obtain ⟨hlength, hdigits, hvalue⟩ := (hcode version code reason hversion hblank).mp h
        exact ⟨version, code, reason, rfl, hversion, hblank, hlength, hdigits, hvalue⟩
      · rw [Monitor.refuses, JsText.splitLimit,
          List.splitOn_append_cons_self_of_not_mem hversion,
          List.splitOn_eq_singleton hsecond] at h
        cases h
    · rw [Monitor.refuses, JsText.splitLimit, List.splitOn_eq_singleton hfirst] at h
      cases h
  · rintro ⟨version, code, reason, rfl, hversion, hblank, hlength, hdigits, hvalue⟩
    exact (hcode version code reason hversion hblank).mpr ⟨hlength, hdigits, hvalue⟩

namespace Monitor

/-- The socket is destroyed by a complete head with a refusing status line,
and by nothing else. -/
theorem onSocketData_destroyed {m : Monitor} (hm : m.Unread) {response : Bytes}
    (hplain : PlainBytes response) :
    ((m.onSocketData response).destroyed ≠ [] ↔
        ∃ head, CompleteHead (responseText response) head ∧
          Refusing (JsText.beforeFirst '\n' head)) ∧
      (m.onSocketData response).destroyed.length ≤ 1 := by
  have hread : m.receivedHead ++ responseText response = responseText response := by
    rw [hm.head, List.nil_append]
  cases hindex : indexOf? ServerConnection.crlfcrlfText (responseText response) with
  | none =>
      have hopen := onSocketData_open hm.notDone hplain (by rw [hread, hindex])
      refine ⟨iff_of_false ?_ ?_, ?_⟩
      · rw [hopen, hm.kept]
        simp
      · rintro ⟨head, hhead, -⟩
        obtain ⟨i, hi, -⟩ := completeHead_iff.mp hhead
        rw [hindex] at hi
        cases hi
      · rw [hopen, hm.kept]
        simp
  | some i =>
      have hcomplete := onSocketData_complete hm.notDone hplain (i := i) (by rw [hread, hindex])
      rw [hread] at hcomplete
      have hdestroyed : (m.onSocketData response).destroyed =
          if refuses (JsText.beforeFirst '\n' ((responseText response).take i)) then
            [JsText.beforeFirst '\n' ((responseText response).take i)] else [] := by
        rw [hcomplete]
        simp only [onHead_destroyed, hm.kept, List.nil_append]
      have hheads : (∃ head, CompleteHead (responseText response) head ∧
          Refusing (JsText.beforeFirst '\n' head)) ↔
          refuses (JsText.beforeFirst '\n' ((responseText response).take i)) = true := by
        rw [refuses_iff]
        constructor
        · rintro ⟨head, hhead, hrefusing⟩
          obtain ⟨j, hj, rfl⟩ := completeHead_iff.mp hhead
          rw [hindex, Option.some_inj] at hj
          rwa [hj]
        · intro hrefusing
          exact ⟨_, completeHead_iff.mpr ⟨i, hindex, rfl⟩, hrefusing⟩
      rw [hheads, hdestroyed]
      split <;> simp_all

/-- The entries of the log that are header lines. -/
def headerEntries (m : Monitor) : List ReqResEvent :=
  m.logArr.filter (fun e => match e.message with | .hed01 _ => true | _ => false)

/-- **A response is read the same however it is cut**, and its status line
alone decides whether the socket is destroyed. -/
theorem receive_chunks (m : Monitor) (hm : m.Unread) (chunks : List Bytes)
    (hplain : ∀ c ∈ chunks, PlainBytes c) :
    (m.receive chunks).receivedHead = (m.onSocketData chunks.flatten).receivedHead ∧
      (m.receive chunks).receivedHeadDone = (m.onSocketData chunks.flatten).receivedHeadDone ∧
      (m.receive chunks).length = (m.onSocketData chunks.flatten).length ∧
      (m.receive chunks).headerEntries = (m.onSocketData chunks.flatten).headerEntries ∧
      (m.receive chunks).destroyed = (m.onSocketData chunks.flatten).destroyed ∧
      ((m.receive chunks).destroyed ≠ [] ↔
        ∃ head, CompleteHead (responseText chunks.flatten) head ∧
          Refusing (JsText.beforeFirst '\n' head)) ∧
      (m.receive chunks).destroyed.length ≤ 1 := by
  have hflatten : PlainBytes chunks.flatten := by
    intro b hb
    obtain ⟨c, hc, hbc⟩ := List.mem_flatten.mp hb
    exact hplain c hc b hbc
  rw [receive_flatten hm hplain]
  exact ⟨rfl, rfl, rfl, rfl, rfl, onSocketData_destroyed hm hflatten⟩

theorem unread_newMonitor (uri : Text) (proxy : Option Text) (start : Nat) :
    (newMonitor uri proxy start).Unread := ⟨rfl, rfl, rfl⟩

/-- A refusal cut inside its empty line. -/
theorem receive_chunks_refusal :
    ((newMonitor [] none 0).receive
        [Utf8.encode "HTTP/1.1 403 Forbidden\r\n\r".toList, Utf8.encode "\n".toList]).destroyed =
      ((newMonitor [] none 0).onSocketData
        (Utf8.encode "HTTP/1.1 403 Forbidden\r\n\r\n".toList)).destroyed := by
  have hplain : ∀ c ∈ [Utf8.encode "HTTP/1.1 403 Forbidden\r\n\r".toList,
      Utf8.encode "\n".toList], PlainBytes c := by
    have hall : ([Utf8.encode "HTTP/1.1 403 Forbidden\r\n\r".toList,
        Utf8.encode "\n".toList].all (fun c => c.all (fun b => decide (Plain b)))) = true := by
      decide +kernel
    simpa [PlainBytes] using hall
  exact (receive_chunks (newMonitor [] none 0) (unread_newMonitor _ _ _) _ hplain).2.2.2.2.1

end Monitor

end RequestResponseMonitor

end ProxyBroker.Judge
