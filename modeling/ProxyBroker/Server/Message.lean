/-
ProxyBroker.Server.Message — a head that is written out of a list of
headers, and what `onData` reads of it.

`messageOf` is how `build` and the proxy agent write a head: the first
line, a line 'name: value' for each header, the empty line. `Sendable` is
what a header has to be so that its line is read as one line with the
same name (`lines_messageOf`, `headerOf_lineOf`).

The heads the broker writes of its own stand here too. `packErrorMessage`
is a parameter of them: how an error is written as JSON is not code of
this repository.
-/
import ProxyBroker.Server.ControlHeadersTheorems
import ProxyBroker.Server.ResponseTheorems

namespace ProxyBroker.Server

open Lib SocketHandle

/-! ## Writing -/

/-- A header line. -/
def lineOf (e : Text × Text) : Text := e.1 ++ [':', ' '] ++ e.2

def messageOf (query : Bytes) (headers : List (Text × Text)) (body : Bytes) : Bytes :=
  Head.join ⟨query, Utf8.encode (crlfText.intercalate (headers.map lineOf)), body⟩

/-- A header that is written as one line and read as the same name. -/
structure Sendable (e : Text × Text) : Prop where
  name : ':' ∉ e.1
  trimmed : JsText.trim e.1 = e.1
  ascii : (lineOf e).all Utf8.isAscii = true
  line : indexOf? crlfText (lineOf e) = none

instance (e : Text × Text) : Decidable (Sendable e) :=
  decidable_of_iff (':' ∉ e.1 ∧ JsText.trim e.1 = e.1 ∧ (lineOf e).all Utf8.isAscii = true ∧
      indexOf? crlfText (lineOf e) = none)
    ⟨fun ⟨h₁, h₂, h₃, h₄⟩ => ⟨h₁, h₂, h₃, h₄⟩, fun ⟨h₁, h₂, h₃, h₄⟩ => ⟨h₁, h₂, h₃, h₄⟩⟩

/-! ## The heads the broker writes -/

/-- 'HTTP/version code reason' -/
def statusLine (v code reason : Text) : Text :=
  "HTTP/".toList ++ v ++ ' ' :: code ++ ' ' :: reason

/-- What `onServerConnect` writes when the downstream is connected. -/
def establishedHead (httpVersion : Text) : Text :=
  statusLine httpVersion "200".toList "Connection Established".toList ++ crlfText ++
    ((headerKeyProxyAgent ++ ": Proxybroker".toList) ++ crlfText) ++ crlfText

/-- The headers of `errorUpstream` and `errorResponse`. -/
def errorHeaders (packErrorMessage : JsError → Text) (error : JsError) : List (Text × Text) :=
  [(headerKeyProxyBroker, "Failed".toList), (headerKeyProxyBrokerError, packErrorMessage error),
    (headerKeyProxyAgent, "Proxy-Broker".toList)]

/-- What `errorUpstream` writes. -/
def gatewayTimeoutHead (packErrorMessage : JsError → Text) (error : JsError)
    (httpVersion : Text) : Text :=
  statusLine httpVersion "504".toList "Gateway Time-out".toList ++ crlfText ++
    (crlfText.intercalate ((errorHeaders packErrorMessage error).map lineOf) ++ crlfText) ++
    crlfText

/-! ## Lines in bytes and in text -/

/-- A line of text is a line of bytes. -/
theorem encode_line {t : Text} (ht : indexOf? crlfText t = none) :
    indexOf? crlf (Utf8.encode t) = none := by
  rw [indexOf?_eq_none_iff (by decide)]
  rintro i ⟨r, hr⟩
  have hsplit : Utf8.encode t = (Utf8.encode t).take i ++ (crlf ++ r) := by
    rw [hr, List.take_append_drop]
  have hdecode := congrArg Utf8.decode hsplit
  rw [Utf8.decode_encode, decode_append_crlf] at hdecode
  generalize Utf8.decode ((Utf8.encode t).take i) = p at hdecode
  refine (indexOf?_eq_none_iff (by decide)).mp ht p.length ?_
  rw [hdecode, List.drop_left]
  exact List.prefix_append _ _

theorem encode_intercalate (lines : List Text) :
    Utf8.encode (crlfText.intercalate lines) = crlf.intercalate (lines.map Utf8.encode) := by
  induction lines with
  | nil => rfl
  | cons l lines ih =>
      cases lines with
      | nil => simp
      | cons l' lines =>
          rw [List.intercalate_cons_cons, Utf8.encode_append, Utf8.encode_append, ih,
            ← crlf_eq_encode]
          simp [List.intercalate_cons_cons]

theorem encode_lineOf_ne_nil (e : Text × Text) : Utf8.encode (lineOf e) ≠ [] := by
  intro hnil
  have hdecode := congrArg Utf8.decode hnil
  rw [Utf8.decode_encode] at hdecode
  simp [lineOf, Utf8.decode, Utf8.decodeFrom] at hdecode

/-! ## Reading -/

variable {query body : Bytes} {headers : List (Text × Text)}

/-- **A written head is cut where it was joined.** -/
theorem head?_messageOf (hquery : indexOf? crlf query = none) (hne : headers ≠ [])
    (hheaders : ∀ e ∈ headers, Sendable e) :
    head? (messageOf query headers body) =
      some ⟨query, Utf8.encode (crlfText.intercalate (headers.map lineOf)), body⟩ := by
  have hlines : ∀ l ∈ (headers.map lineOf).map Utf8.encode, l ≠ [] ∧ indexOf? crlf l = none := by
    intro l hl
    simp only [List.mem_map, exists_exists_and_eq_and] at hl
    obtain ⟨e, he, rfl⟩ := hl
    exact ⟨encode_lineOf_ne_nil e, encode_line (hheaders e he).line⟩
  have hcut := head?_of_lines hquery (by simpa using hne) hlines body
  rw [messageOf, encode_intercalate, ← hcut]
  simp [Head.join]

theorem lines_messageOf (hne : headers ≠ []) (hheaders : ∀ e ∈ headers, Sendable e) :
    Head.lines ⟨query, Utf8.encode (crlfText.intercalate (headers.map lineOf)), body⟩ =
      headers.map lineOf := by
  have hlines : ∀ l ∈ headers.map lineOf, indexOf? crlfText l = none := by
    intro l hl
    obtain ⟨e, he, rfl⟩ := List.mem_map.mp hl
    exact (hheaders e he).line
  rw [Head.lines, Utf8.decode_encode]
  exact splitSeq_intercalate (x := '\r') (t := ['\n']) (by decide) (by simpa using hne) hlines

theorem colon_mem_lineOf (e : Text × Text) : ':' ∈ lineOf e := by
  simp [lineOf]

theorem colons_messageOf (hne : headers ≠ []) (hheaders : ∀ e ∈ headers, Sendable e) :
    Head.Colons ⟨query, Utf8.encode (crlfText.intercalate (headers.map lineOf)), body⟩ := by
  intro x hx
  rw [lines_messageOf hne hheaders] at hx
  obtain ⟨e, -, rfl⟩ := List.mem_map.mp hx
  exact colon_mem_lineOf e

/-- The first byte decides about TLS, and no line end looks like it. -/
theorem looksTls_messageOf (h : looksTls query = false) :
    looksTls (messageOf query headers body) = false := by
  cases query with
  | nil => rfl
  | cons b query => exact h

/-- The header a line stands for: its name, and what stands behind its
first colon. -/
def headerOf (x : Text) : Text × Text := (JsText.trim (lineName x), JsText.afterFirst ':' x)

theorem headerOf_lineOf {e : Text × Text} (he : Sendable e) :
    headerOf (lineOf e) = (e.1, ' ' :: e.2) := by
  have hline : lineOf e = e.1 ++ ':' :: (' ' :: e.2) := by simp [lineOf]
  have hname : lineName (lineOf e) = e.1 := by
    rw [lineName, hline, JsText.beforeFirst_append_cons he.name]
  have hsplit := JsText.beforeFirst_append_afterFirst (colon_mem_lineOf e)
  have hrest : JsText.afterFirst ':' (lineOf e) = ' ' :: e.2 := by
    rw [show JsText.beforeFirst ':' (lineOf e) = e.1 from hname] at hsplit
    exact (List.cons.inj (List.append_cancel_left (hsplit.trans hline))).2
  rw [headerOf, hname, hrest, he.trimmed]

/-! ## The value `onData` reads -/

/-- What is left of a value: it ends at its first colon. -/
def cutValue (value : Text) : Text := JsText.trim (value.takeWhile (· ≠ ':'))

def cutHeader (e : Text × Text) : Text × Text := (e.1, cutValue e.2)

theorem readLine_headerOf (host : Host) (x : Text) :
    ((readLine host x).orgKey, (readLine host x).value) = cutHeader (headerOf x) := rfl

theorem cutValue_space (value : Text) : cutValue (' ' :: value) = cutValue value := by
  rfl

theorem colon_notMem_cutValue (value : Text) : ':' ∉ cutValue value := by
  intro h
  have hmem := List.mem_takeWhile_imp ((JsText.trim_isInfix _).subset h)
  simp at hmem

/-- A value is cut once and for all. -/
theorem cutValue_cutValue (value : Text) : cutValue (cutValue value) = cutValue value := by
  have hself : (cutValue value).takeWhile (· ≠ ':') = cutValue value := by
    rw [List.takeWhile_eq_self_iff]
    intro c hc
    exact decide_eq_true (ne_of_mem_of_not_mem hc (colon_notMem_cutValue value))
  rw [cutValue, hself, cutValue, JsText.trim_trim]

end ProxyBroker.Server
