/-
ProxyBroker.Server.TunnelTheorems — the broker's agent and the broker's
server, the two ends of a CONNECT.

* `connect_read` — what `SocketHandle` reads of the agent's request: all
  its headers, with values that end at their first colon;
* `established_run` — the agent behind '200 Connection Established'
  (`onServerConnect`): it takes the tunnel, and misses what came in the
  same chunk as the end of the head;
* `gatewayTimeout_run` — the agent behind the 504 of `errorUpstream`: the
  whole answer is given out again.

A version is what Node reads of a request line, digits and dots. Of
`+text` it is only taken that '200' and '504' are read as the numbers
they are (`ReadsStatus`).
-/
import ProxyBroker.Server.HandshakeTheorems

namespace ProxyBroker.Server

open Lib SocketHandle

/-! ## The heads of the broker -/

def IsVersion (v : Text) : Prop := v.all (fun c => c.isDigit || c == '.') = true

instance (v : Text) : Decidable (IsVersion v) := inferInstanceAs (Decidable (_ = _))

theorem IsVersion.not_mem {v : Text} (hv : IsVersion v) {c : Char} (hc : c.isDigit = false)
    (hdot : c ≠ '.') : c ∉ v := by
  intro hmem
  have hall := List.all_eq_true.mp hv c hmem
  simp [hc, hdot] at hall

theorem IsVersion.ascii {v : Text} (hv : IsVersion v) : v.all Utf8.isAscii = true := by
  rw [List.all_eq_true]
  intro c hc
  have hall := List.all_eq_true.mp hv c hc
  rcases Bool.or_eq_true_iff.mp hall with hdigit | hdot
  · have hrange := Decimal.toNat_of_isDigit hdigit
    exact decide_eq_true (UInt32.le_iff_toNat_le.mpr (Nat.le_trans hrange.2 (by decide)))
  · rw [beq_iff_eq] at hdot
    rw [hdot]
    decide

namespace HttpsProxyAgent

/-! ## Status lines -/

theorem asciiText_encode {t : Text} (ht : t.all Utf8.isAscii = true) :
    asciiText (Utf8.encode t) = t := by
  induction t with
  | nil => rfl
  | cons c t ih =>
      rw [List.all_cons, Bool.and_eq_true] at ht
      have hlt : c.val.toNat < 128 := Nat.lt_succ_of_le (of_decide_eq_true ht.1)
      have hc : Char.ofNat (c.val.toUInt8.toNat % 128) = c := by
        have hbyte : c.val.toUInt8.toNat = c.val.toNat := by
          rw [UInt32.toNat_toUInt8]
          omega
        rw [hbyte, Nat.mod_eq_of_lt hlt]
        exact Char.ofNat_toNat c
      rw [Utf8.encode_cons, Utf8.utf8EncodeChar_of_isAscii ht.1, asciiText_append, ih ht.2]
      change Char.ofNat (c.val.toUInt8.toNat % 128) :: t = c :: t
      rw [hc]

theorem digits_of_all {code : Text} (hcode : code.all Char.isDigit = true) :
    Decimal.Digits code := List.all_eq_true.mp hcode

theorem not_mem_of_digits {code : Text} (hcode : Decimal.Digits code) {c : Char}
    (hc : c.isDigit = false) : c ∉ code := by
  intro hmem
  rw [hcode c hmem] at hc
  cases hc

/-- It is one line. -/
theorem statusLine_line {v code reason : Text} (hv : IsVersion v) (hcode : Decimal.Digits code)
    (hreason : '\r' ∉ reason) : indexOf? crlfText (statusLine v code reason) = none := by
  have hfixed : '\r' ∉ "HTTP/".toList := by decide
  have hcr : '\r' ∉ statusLine v code reason := by
    simp only [statusLine, List.mem_append, List.mem_cons, not_or]
    exact ⟨⟨⟨hfixed, hv.not_mem (by decide) (by decide)⟩, by decide,
      not_mem_of_digits hcode (by decide)⟩, by decide, hreason⟩
  rw [indexOf?_eq_none_iff (by decide)]
  intro i hi
  exact hcr (List.mem_of_mem_drop (hi.subset (by decide)))

/-- **The status of a status line.** -/
theorem statusCode_line (env : Env) {v code reason : Text} (hv : IsVersion v)
    (hcode : Decimal.Digits code) (hreason : '\r' ∉ reason) (more : Text) :
    statusCode env (statusLine v code reason ++ (crlfText ++ more)) = env.number code := by
  have hfixed : ' ' ∉ "HTTP/".toList := by decide
  have hspace : ' ' ∉ "HTTP/".toList ++ v := by
    rw [List.mem_append, not_or]
    exact ⟨hfixed, hv.not_mem (by decide) (by decide)⟩
  have hindex := indexOf?_append_sep (x := '\r') (t := ['\n']) (by decide)
    (statusLine_line hv hcode hreason) more
  have hsplit : (statusLine v code reason).splitOn ' ' =
      ("HTTP/".toList ++ v) :: code :: reason.splitOn ' ' := by
    rw [statusLine, List.append_assoc, List.cons_append,
      List.splitOn_append_cons_self_of_not_mem hspace,
      List.splitOn_append_cons_self_of_not_mem (not_mem_of_digits hcode (by decide))]
  have htake : statusCode env (statusLine v code reason ++ (crlfText ++ more)) =
      ((statusLine v code reason).splitOn ' ')[1]?.bind env.number := by
    simp only [statusCode]
    rw [show crlfText = '\r' :: ['\n'] from rfl, hindex, Option.getD_some, List.take_left]
  rw [htake, hsplit]
  rfl

/-! ## The end of a head -/

/-- A head whose empty line is found at its end. -/
theorem endsHead_of_indexOf {t : Text} (ht : t.all Utf8.isAscii = true) {j : Nat}
    (hj : indexOf? (crlfText ++ crlfText) t = some j) (hlen : t.length = j + 4) :
    EndsHead (Utf8.encode t) := by
  have htext := asciiText_encode ht
  refine ⟨?_, ?_⟩
  · rw [complete, htext, hj]
    rfl
  · rintro p ⟨q, hq⟩ hne
    cases hp : complete p with
    | false => rfl
    | true =>
        obtain ⟨i, hi⟩ := Option.isSome_iff_exists.mp hp
        rw [← hq, asciiText_append] at htext
        rw [← htext, indexOf?_append (by decide) hi, Option.some.injEq] at hj
        have hfit := indexOf?_length_le (by decide) hi
        have hcount := congrArg List.length htext
        simp only [asciiText, List.length_map, List.length_append, crlfText, List.length_cons,
          List.length_nil] at hfit hcount
        have hnil : q = [] := List.length_eq_zero_iff.mp (by omega)
        rw [hnil, List.append_nil] at hq
        exact absurd hq hne

/-- Two lines and the empty line. -/
theorem endsHead_two {l l' : Text} (hl : indexOf? crlfText l = none)
    (hl' : indexOf? crlfText l' = none) (hne : l' ≠ [])
    (hascii : (l ++ crlfText ++ (l' ++ crlfText) ++ crlfText).all Utf8.isAscii = true) :
    EndsHead (Utf8.encode (l ++ crlfText ++ (l' ++ crlfText) ++ crlfText)) := by
  have hbehind : ¬ crlfText <+: l' ++ (crlfText ++ crlfText) := by
    intro hpre
    obtain ⟨-, hmin⟩ := (indexOf?_eq_some_iff (by decide)).mp
      (indexOf?_append_sep (x := '\r') (t := ['\n']) (by decide) hl' crlfText)
    exact hmin 0 (List.length_pos_iff.mpr hne) hpre
  have hhere : indexOf? (crlfText ++ crlfText) (l' ++ (crlfText ++ crlfText)) = some l'.length :=
    indexOf?_sep_append_here (x := '\r') (t := ['\n']) (by decide) hl' (List.prefix_refl _)
  have hlater :
      indexOf? (crlfText ++ crlfText) (l ++ (crlfText ++ (l' ++ (crlfText ++ crlfText)))) =
        some (l.length + 2 + l'.length) :=
    indexOf?_sep_append_later (x := '\r') (t := ['\n']) (by decide) hl hbehind hhere
  refine endsHead_of_indexOf hascii (j := l.length + 2 + l'.length) ?_ ?_
  · rw [← hlater]
    simp only [List.append_assoc]
  · simp only [List.length_append, crlfText, List.length_cons, List.length_nil]
    omega

/-! ## '200 Connection Established' -/

variable {env : Env} {opts : Options} {as : List Action} {s : Connect}

/-- What is taken of `+text`: the two statuses the broker answers with. -/
structure ReadsStatus (env : Env) : Prop where
  established : env.number "200".toList = some 200
  gatewayTimeout : env.number "504".toList = some 504

instance (env : Env) : Decidable (ReadsStatus env) :=
  decidable_of_iff (env.number "200".toList = some 200 ∧ env.number "504".toList = some 504)
    ⟨fun ⟨h₁, h₂⟩ => ⟨h₁, h₂⟩, fun ⟨h₁, h₂⟩ => ⟨h₁, h₂⟩⟩

theorem statusLine_ascii {v code reason : Text} (hv : IsVersion v)
    (hcode : code.all Utf8.isAscii = true) (hreason : reason.all Utf8.isAscii = true) :
    (statusLine v code reason).all Utf8.isAscii = true := by
  have hfixed : "HTTP/".toList.all Utf8.isAscii = true := by decide
  have hspace : Utf8.isAscii ' ' = true := by decide
  simp only [statusLine, List.all_append, List.all_cons, hfixed, hspace, hv.ascii, hcode, hreason,
    Bool.and_self]

theorem establishedHead_ascii {v : Text} (hv : IsVersion v) :
    (establishedHead v).all Utf8.isAscii = true := by
  have hline : (statusLine v "200".toList "Connection Established".toList).all Utf8.isAscii =
      true := statusLine_ascii hv (by decide) (by decide)
  have hagent : (headerKeyProxyAgent ++ ": Proxybroker".toList).all Utf8.isAscii = true := by
    decide
  have hcrlf : crlfText.all Utf8.isAscii = true := by decide
  rw [establishedHead]
  simp only [List.all_append, hline, hcrlf, Bool.and_true, Bool.true_and]
  rw [← List.all_append]
  exact hagent

theorem endsHead_established {v : Text} (hv : IsVersion v) :
    EndsHead (Utf8.encode (establishedHead v)) := by
  have hascii := establishedHead_ascii hv
  exact endsHead_two (statusLine_line hv (digits_of_all (by decide)) (by decide)) (by decide)
    (by decide) hascii

theorem accepts_established (henv : ReadsStatus env) {v : Text} (hv : IsVersion v) :
    accepts env (Utf8.encode (establishedHead v)) = true := by
  rw [accepts, asciiText_encode (establishedHead_ascii hv), establishedHead, List.append_assoc,
    List.append_assoc, statusCode_line env hv (digits_of_all (by decide)) (by decide),
    henv.established]
  decide

/-- **The tunnel through the broker.** Once the head of the broker's
answer was read, `fn` has got the tunnel, nothing is given out again, and
of the bytes of the downstream those are missing that came in the same
chunk as the end of the head. -/
theorem established_run (henv : ReadsStatus env) {v : Text} (hv : IsVersion v)
    (h : (machine env opts).run {} as = some s) (hcomplete : complete (bytesOf as) = true)
    {down rest : Bytes} (hstream : bytesOf as ++ rest = Utf8.encode (establishedHead v) ++ down) :
    s.calls.head? = some (tunnel opts) ∧ s.replayed = [] ∧
      ∃ lost cs b, received as = cs ++ [b] ∧ down = lost ++ rest ∧ lost <:+ b ∧ lost ≠ b ∧
        bytesOf as = Utf8.encode (establishedHead v) ++ lost := by
  have hends := endsHead_established hv
  have haccepts := accepts_established henv hv
  have ht := tracks_run h
  have houtcome : outcome env opts (Utf8.encode (establishedHead v) ++ down) =
      some (tunnel opts) := by
    rw [outcome_append env opts hends.complete, outcome, if_pos hends.complete, haccepts]
    rfl
  have hrefused : refused env (bytesOf as) = false := by
    rw [← refused_append env hcomplete rest, hstream, refused_append env hends.complete, refused,
      haccepts]
    simp
  refine ⟨?_, ?_, ?_⟩
  · rw [ht.verdict hcomplete rest, hstream, houtcome]
  · rw [List.eq_nil_iff_forall_not_mem]
    intro b hb
    have htrue := (ht.replay hb).2.2
    rw [hrefused] at htrue
    cases htrue
  · obtain ⟨lost, cs, b, hcs, hread, hdown, hsuffix, hne⟩ := tunnel_lost h hcomplete hends hstream
    exact ⟨lost, cs, b, hcs, hdown, hsuffix, hne, hread⟩

theorem readsStatus_example : ReadsStatus exampleEnv := by decide

/-- The answer of the broker in two chunks, with a byte behind it. -/
def exampleEstablished : List Action :=
  [.read (some ((Utf8.encode (establishedHead "1.1".toList)).take 20)),
    .read (some ((Utf8.encode (establishedHead "1.1".toList)).drop 20 ++ [22]))]

theorem established_run_two :
    ∃ s, (machine exampleEnv exampleOptions).run {} exampleEstablished = some s ∧
      s.calls.head? = some (.socket (some "example.org".toList)) ∧ s.replayed = [] ∧
      bytesOf exampleEstablished = Utf8.encode (establishedHead "1.1".toList) ++ [22] := by
  obtain ⟨s, hs⟩ : ∃ s, (machine exampleEnv exampleOptions).run {} exampleEstablished = some s :=
    Option.isSome_iff_exists.mp (by decide +kernel)
  have hstream : bytesOf exampleEstablished ++ [3] =
      Utf8.encode (establishedHead "1.1".toList) ++ [22, 3] := by decide +kernel
  obtain ⟨hcall, hnone, lost, -, -, -, hdown, -, -, hread⟩ :=
    established_run readsStatus_example (by decide) hs (by decide +kernel) hstream
  have hlost : lost ++ [3] = [22] ++ [3] := hdown.symm
  exact ⟨s, hs, hcall, hnone, by rw [hread, List.append_cancel_right hlost]⟩

/-! ## '504 Gateway Time-out' -/

variable (packErrorMessage : JsError → Text) (error : JsError)

theorem asciiText_gatewayTimeout {v : Text} (hv : IsVersion v) :
    ∃ lines, asciiText (Utf8.encode (gatewayTimeoutHead packErrorMessage error v)) =
      statusLine v "504".toList "Gateway Time-out".toList ++
        (crlfText ++ (lines ++ (crlfText ++ crlfText))) := by
  have hline : (statusLine v "504".toList "Gateway Time-out".toList).all Utf8.isAscii = true :=
    statusLine_ascii hv (by decide) (by decide)
  have hcrlf : asciiText (Utf8.encode crlfText) = crlfText := by decide
  rw [gatewayTimeoutHead]
  generalize crlfText.intercalate ((errorHeaders packErrorMessage error).map lineOf) = headers
  generalize statusLine v "504".toList "Gateway Time-out".toList = line at hline ⊢
  refine ⟨asciiText (Utf8.encode headers), ?_⟩
  simp only [Utf8.encode_append, asciiText_append, hcrlf, asciiText_encode hline, List.append_assoc]

theorem complete_gatewayTimeout {v : Text} (hv : IsVersion v) :
    complete (Utf8.encode (gatewayTimeoutHead packErrorMessage error v)) = true := by
  obtain ⟨lines, hlines⟩ := asciiText_gatewayTimeout packErrorMessage error hv
  rw [complete, hlines, Option.isSome_iff_ne_none]
  intro hnone
  generalize statusLine v "504".toList "Gateway Time-out".toList = line at hnone
  refine (indexOf?_eq_none_iff (by decide)).mp hnone (line ++ (crlfText ++ lines)).length ?_
  have hsplit : line ++ (crlfText ++ (lines ++ (crlfText ++ crlfText))) =
      (line ++ (crlfText ++ lines)) ++ (crlfText ++ crlfText) := by
    simp only [List.append_assoc]
  rw [hsplit, List.drop_left]

theorem refused_gatewayTimeout (henv : ReadsStatus env) {v : Text} (hv : IsVersion v) :
    refused env (Utf8.encode (gatewayTimeoutHead packErrorMessage error v)) = true := by
  have hcomplete := complete_gatewayTimeout packErrorMessage error hv
  obtain ⟨lines, hlines⟩ := asciiText_gatewayTimeout packErrorMessage error hv
  have hstatus :
      accepts env (Utf8.encode (gatewayTimeoutHead packErrorMessage error v)) = false := by
    rw [accepts, hlines, statusCode_line env hv (digits_of_all (by decide)) (by decide),
      henv.gatewayTimeout]
    decide
  rw [refused, hcomplete, hstatus]
  rfl

/-- **The broker's error reaches the request.** Once the head of the 504
was read, `fn` has got the bare socket, and a request that listens there
is given the answer, from its first byte on. -/
theorem gatewayTimeout_run (henv : ReadsStatus env) {v : Text} (hv : IsVersion v)
    (h : (machine env opts).run {} as = some s) (hcomplete : complete (bytesOf as) = true)
    {rest : Bytes} (hstream : bytesOf as ++ rest =
      Utf8.encode (gatewayTimeoutHead packErrorMessage error v)) :
    s.calls.head? = some (.socket none) ∧
      ((given as).any (0 < ·) = true → s.replayed.flatten ++ rest =
        Utf8.encode (gatewayTimeoutHead packErrorMessage error v)) ∧
      (s.awaiting = true ↔ given as = []) := by
  have hrefused := refused_gatewayTimeout packErrorMessage error henv hv
  have ht := tracks_run h
  have hparts := hrefused
  simp only [refused, Bool.and_eq_true, Bool.not_eq_true'] at hparts
  have hread : refused env (bytesOf as) = true := by
    rw [← refused_append env hcomplete rest, hstream]
    exact hrefused
  refine ⟨?_, ?_, ?_⟩
  · rw [ht.verdict hcomplete rest, hstream, outcome, if_pos hparts.1, hparts.2]
    rfl
  · intro hgiven
    rw [ht.replayed, if_pos hgiven, List.flatten_singleton, hstream]
  · rw [ht.awaiting, hread, Bool.true_and, List.isEmpty_iff]

/-- The answer in one chunk, and the request that listens. -/
def exampleGatewayTimeout : List Action :=
  [.read (some (Utf8.encode
    (gatewayTimeoutHead JsError.message ⟨"No proxy".toList⟩ "1.1".toList))), .socket 2]

theorem gatewayTimeout_run_one :
    ∃ s, (machine exampleEnv exampleOptions).run {} exampleGatewayTimeout = some s ∧
      s.calls.head? = some (.socket none) ∧ s.awaiting = false ∧
      s.replayed.flatten =
        Utf8.encode (gatewayTimeoutHead JsError.message ⟨"No proxy".toList⟩ "1.1".toList) := by
  obtain ⟨s, hs⟩ : ∃ s, (machine exampleEnv exampleOptions).run {} exampleGatewayTimeout = some s :=
    Option.isSome_iff_exists.mp (by decide +kernel)
  have hstream : bytesOf exampleGatewayTimeout ++ [] = Utf8.encode
      (gatewayTimeoutHead JsError.message ⟨"No proxy".toList⟩ "1.1".toList) := by decide +kernel
  obtain ⟨hcall, hreplayed, hawaiting⟩ :=
    gatewayTimeout_run _ _ readsStatus_example (by decide) hs (by decide +kernel) hstream
  have hgiven : given exampleGatewayTimeout = [2] := rfl
  refine ⟨s, hs, hcall, ?_, ?_⟩
  · rw [Bool.eq_false_iff, ne_eq, hawaiting, hgiven]
    exact List.cons_ne_nil _ _
  · rw [← hreplayed (by rw [hgiven]; rfl), List.append_nil]

/-! ## CONNECT -/

def connectLine (opts : Options) : Text :=
  "CONNECT ".toList ++ hostname opts ++ " HTTP/1.1".toList

theorem flatMap_line {lines : List Text} (hne : lines ≠ []) :
    lines.flatMap (· ++ crlfText) = crlfText.intercalate lines ++ crlfText := by
  induction lines with
  | nil => exact absurd rfl hne
  | cons l lines ih =>
      cases lines with
      | nil => simp
      | cons l' lines =>
          rw [List.flatMap_cons, ih (by simp), List.intercalate_cons_cons]
          simp only [List.append_assoc]

theorem setHeader_ne_nil (headers : List (Text × Text)) (name value : Text) :
    HttpsProxyAgent.setHeader headers name value ≠ [] := by
  unfold HttpsProxyAgent.setHeader
  split
  · rename_i hany
    intro hnil
    rw [List.map_eq_nil_iff.mp hnil] at hany
    cases hany
  · simp

theorem connectHeaders_ne_nil : connectHeaders env opts ≠ [] := setHeader_ne_nil _ _ _

theorem encode_connectMessage :
    Utf8.encode (connectMessage env opts) =
      messageOf (Utf8.encode (connectLine opts)) (connectHeaders env opts) [] := by
  have hlines : (connectHeaders env opts).flatMap
      (fun e => e.1 ++ [':', ' '] ++ e.2 ++ crlfText) =
      crlfText.intercalate ((connectHeaders env opts).map lineOf) ++ crlfText := by
    rw [← flatMap_line (by simpa using connectHeaders_ne_nil), List.flatMap_map]
    rfl
  have hmessage : connectMessage env opts = connectLine opts ++ crlfText ++
      (crlfText.intercalate ((connectHeaders env opts).map lineOf) ++ crlfText) ++ crlfText := by
    rw [← hlines]
    rfl
  rw [hmessage, messageOf, Head.join]
  generalize connectLine opts = line
  simp only [Utf8.encode_append, ← crlf_eq_encode, List.append_nil, List.append_assoc]

/-- **What the broker reads of the agent's request**: the request line and
every header, with its value up to the first colon. -/
theorem connect_read (host : Host) (hline : indexOf? crlfText (connectLine opts) = none)
    (hheaders : ∀ e ∈ connectHeaders env opts, Sendable e) :
    ∃ h, feed host {} [Utf8.encode (connectMessage env opts)] = .ok h ∧
      h.query = some (Utf8.encode (connectLine opts)) ∧
      h.headersList = (connectHeaders env opts).map (fun e =>
        { key := host.toLocaleLowerCase e.1, orgKey := e.1, value := cutValue e.2 }) ∧
      h.body = some [] ∧ h.sslDetect = false := by
  have hne : connectHeaders env opts ≠ [] := connectHeaders_ne_nil
  have hquery := encode_line hline
  have hcut := @head?_messageOf _ [] _ hquery hne hheaders
  have htls : looksTls (messageOf (Utf8.encode (connectLine opts)) (connectHeaders env opts) []) =
      false := looksTls_messageOf rfl
  have hread := feed_read host htls hcut (colons_messageOf hne hheaders) []
  rw [encode_connectMessage]
  refine ⟨_, hread, ?_, ?_, ?_, rfl⟩
  · simp [firstState]
  · simp only [firstState, readStatus_headersList, lines_messageOf hne hheaders, List.nil_append,
      List.map_map]
    refine List.map_congr_left ?_
    intro e he
    have hpair := readLine_headerOf host (lineOf e)
    rw [headerOf_lineOf (hheaders e he), cutHeader, Prod.mk.injEq] at hpair
    obtain ⟨hname, hvalue⟩ := hpair
    rw [Function.comp_apply, ← hname, ← hvalue.trans (cutValue_space e.2)]
    rfl
  · simp [kept]

theorem connect_read_one :
    ∃ h, feed Host.ascii {} [Utf8.encode (connectMessage exampleEnv exampleOptions)] = .ok h ∧
      h.query = some (Utf8.encode (connectLine exampleOptions)) ∧
      h.headersList = (connectHeaders exampleEnv exampleOptions).map (fun e =>
        { key := Host.ascii.toLocaleLowerCase e.1, orgKey := e.1, value := cutValue e.2 }) ∧
      h.body = some [] ∧ h.sslDetect = false :=
  connect_read Host.ascii (by decide +kernel) (by decide +kernel)

end HttpsProxyAgent

end ProxyBroker.Server
