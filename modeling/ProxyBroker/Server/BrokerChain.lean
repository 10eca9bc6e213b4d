/-
ProxyBroker.Server.BrokerChain — a plain request that passes several
brokers one behind the other (`SocketHandle.onData`, `onProxyRequest`,
`SocketHandle.build`).

A broker can be the extern proxy of another one, so what one sends on is
what the next one reads: the request is parsed, edited and built again at
every broker. Control headers are gone behind the first one, values end
at their first colon, and 'Via' and 'X-Forwarded-For' are replaced by
every broker whose level asks for them.

* `Hop.forward_chunk` — what one broker makes of a request;
* `relay_eq` — what arrives behind all of them: the headers of a `Trail`,
  which has one place for each of the two headers that brokers set.

The request reaches every broker in one piece. A head without header
lines is not read, so a header has to be left at every broker: this is
the host header.
-/
import ProxyBroker.Server.Message

namespace ProxyBroker.Server

open Lib SocketHandle

/-! ## Brokers -/

/-- A broker on the way of a request, with the addresses of the
connection the request comes in on. The locale lower-cases ASCII texts as
usual; what is made of the addresses are ASCII texts of one line, with no
blanks around them. -/
structure Hop where
  host : Host
  options : Options
  request : Request
  lowers : ∀ t : Text, t.all Utf8.isAscii = true → host.toLocaleLowerCase t = toLowerCase t
  remoteAddress_ascii : request.remoteAddress.all Utf8.isAscii = true
  viaValue_ascii : (viaValue request).all Utf8.isAscii = true
  remoteAddress_line : '\n' ∉ request.remoteAddress
  viaValue_line : '\n' ∉ viaValue request
  remoteAddress_trim : JsText.trim request.remoteAddress = request.remoteAddress
  viaValue_trim : JsText.trim (viaValue request) = viaValue request

/-- What a broker sends on of a request that reaches it in one piece. -/
def Hop.forward (hop : Hop) (message : Bytes) : Except JsException (Option Bytes) := do
  let handle ← feed hop.host {} [message]
  return build hop.host (onProxyRequest hop.host hop.options handle hop.request)

/-- A request on its way through brokers. A `build` that returns null ends
it. -/
def relay : List Hop → Bytes → Except JsException (Option Bytes)
  | [], message => .ok (some message)
  | hop :: hops, message => do
      match ← hop.forward message with
      | some sent => relay hops sent
      | none => return none

/-! ## One broker -/

/-- The headers a broker sets. -/
def Hop.levelPairs (hop : Hop) : List (Text × Text) :=
  if hop.options.level = 3 then
    [(headerKeyProxyXForwardedFor, hop.request.remoteAddress),
      (headerKeyProxyVia, viaValue hop.request)]
  else if hop.options.level = 2 then [(headerKeyProxyVia, viaValue hop.request)]
  else []

/-- The name is one of those a broker takes away. -/
def Hop.removes (hop : Hop) (name : Text) : Bool := (removedKeys hop.options).any (sameName name)

/-- The headers of a request behind a broker. -/
def Hop.headers (hop : Hop) (headers : List (Text × Text)) : List (Text × Text) :=
  (headers.map cutHeader).filter (fun e => !hop.removes e.1) ++ hop.levelPairs

theorem Hop.lowersAscii (hop : Hop) : LowersAscii hop.host := by
  intro t ht
  refine hop.lowers t (List.all_eq_true.mpr ?_)
  intro c hc
  exact decide_eq_true (UInt32.le_iff_toNat_le.mpr (Nat.le_of_lt_succ (ht c hc).1))

theorem mem_of_mem_removedKeys {options : Options} {key : Text} (h : key ∈ removedKeys options) :
    key ∈ controlKeys ++ [headerKeyProxyXForwardedFor, headerKeyProxyVia] := by
  rcases List.mem_append.mp h with hcontrol | hlevel
  · exact List.mem_append_left _ hcontrol
  · refine List.mem_append_right _ ?_
    unfold levelKeys at hlevel
    split at hlevel
    · exact hlevel
    · split at hlevel
      · exact List.mem_cons_of_mem _ hlevel
      · cases hlevel

theorem removedKeys_ascii (options : Options) {key : Text} (h : key ∈ removedKeys options) :
    key.all Utf8.isAscii = true := by
  have hkeys : ∀ t ∈ controlKeys ++ [headerKeyProxyXForwardedFor, headerKeyProxyVia],
      t.all Utf8.isAscii = true := by
    decide
  exact hkeys key (mem_of_mem_removedKeys h)

theorem Hop.isRemoved_eq (hop : Hop) {name : Text} (hname : name.all Utf8.isAscii = true)
    (htrim : JsText.trim name = name) :
    isRemoved hop.host hop.options (hop.host.toLocaleLowerCase name) = hop.removes name := by
  rw [Bool.eq_iff_iff, isRemoved, List.contains_iff_mem, Hop.removes, List.any_eq_true]
  simp only [List.mem_map, sameName, htrim, beq_iff_eq]
  constructor
  · rintro ⟨key, hkey, heq⟩
    rw [hop.lowers key (removedKeys_ascii hop.options hkey), hop.lowers name hname] at heq
    exact ⟨key, hkey, heq.symm⟩
  · rintro ⟨key, hkey, heq⟩
    refine ⟨key, hkey, ?_⟩
    rw [hop.lowers key (removedKeys_ascii hop.options hkey), hop.lowers name hname, heq]

theorem levelHeaders_pairs (hop : Hop) :
    (levelHeaders hop.host hop.options hop.request).map (fun e => (e.orgKey, e.value)) =
      hop.levelPairs := by
  unfold levelHeaders Hop.levelPairs
  split
  · rfl
  · split <;> rfl

/-- A request in one piece, whose header lines are ASCII texts. -/
structure OnePiece where
  chunk : Bytes
  head : Head
  complete : head? chunk = some head
  colons : head.Colons
  notTls : looksTls chunk = false
  ascii : ∀ x ∈ head.lines, x.all Utf8.isAscii = true

/-- The headers of the request. -/
def OnePiece.headers (m : OnePiece) : List (Text × Text) := m.head.lines.map headerOf

/-- The request as it reaches a broker. -/
def OnePiece.at (m : OnePiece) (hop : Hop) : Incoming where
  chunk := m.chunk
  head := m.head
  before := []
  after := []
  request := hop.request
  complete := m.complete
  colons := m.colons
  notTls := m.notTls
  remoteAddress_line := hop.remoteAddress_line
  viaValue_line := hop.viaValue_line

theorem ascii_infix {s t : Text} (h : s <:+: t) (ht : t.all Utf8.isAscii = true) :
    s.all Utf8.isAscii = true := by
  rw [List.all_eq_true] at ht ⊢
  exact fun c hc => ht c (h.subset hc)

theorem ascii_headerOf {x : Text} (hx : x.all Utf8.isAscii = true) :
    (headerOf x).1.all Utf8.isAscii = true ∧ (headerOf x).2.all Utf8.isAscii = true := by
  constructor
  · exact ascii_infix ((JsText.trim_isInfix _).trans (List.takeWhile_prefix _).isInfix) hx
  · exact ascii_infix
      ((List.tail_suffix _).isInfix.trans (List.dropWhile_suffix _).isInfix) hx

theorem ascii_cutValue {value : Text} (h : value.all Utf8.isAscii = true) :
    (cutValue value).all Utf8.isAscii = true :=
  ascii_infix ((JsText.trim_isInfix _).trans (List.takeWhile_prefix _).isInfix) h

/-- The list for the downstream, as names and values. -/
theorem OnePiece.sentHeaders_pairs (m : OnePiece) (hop : Hop) :
    ((m.at hop).sentHeaders hop.host hop.options).map (fun e => (e.orgKey, e.value)) =
      hop.headers m.headers := by
  rw [Incoming.sentHeaders, List.map_append, Hop.headers]
  congr 1
  · rw [OnePiece.headers, List.map_map, List.filter_map, List.filter_map, List.map_map]
    refine congrArg₂ List.map rfl (List.filter_congr ?_)
    intro x hx
    have hname := (ascii_headerOf (m.ascii x hx)).1
    simp only [Function.comp_apply, readLine_key]
    have hgone := hop.isRemoved_eq hname (JsText.trim_trim _)
    exact congrArg (fun b => !b) hgone
  · exact levelHeaders_pairs hop

theorem ascii_intercalate {lines : List Text} (h : ∀ l ∈ lines, l.all Utf8.isAscii = true) :
    (crlfText.intercalate lines).all Utf8.isAscii = true := by
  induction lines with
  | nil => rfl
  | cons l lines ih =>
      obtain ⟨hl, hrest⟩ := List.forall_mem_cons.mp h
      cases lines with
      | nil => simpa using hl
      | cons l' lines =>
          rw [List.intercalate_cons_cons, List.all_append, List.all_append, hl, ih hrest]
          rfl

/-- An ASCII text fills its buffer. -/
theorem buildHeaders_of_ascii (host : Host) {list : List Header}
    (h : (strEntries list).all Utf8.isAscii = true) :
    buildHeaders host list = Utf8.encode (strEntries list) := by
  rw [buildHeaders, Utf8.write_of_length_eq]
  rw [host.uninitialised_length, (Utf8.units_eq_length_encode_iff _).mpr h]

theorem ascii_lineOf {e : Text × Text} (hname : e.1.all Utf8.isAscii = true)
    (hvalue : e.2.all Utf8.isAscii = true) : (lineOf e).all Utf8.isAscii = true := by
  rw [lineOf, List.all_append, List.all_append, hname, hvalue]
  rfl

theorem Hop.levelPairs_plain (hop : Hop) :
    ∀ e ∈ hop.levelPairs, JsText.trim e.1 = e.1 ∧ (lineOf e).all Utf8.isAscii = true := by
  have hkeys : ∀ t ∈ [headerKeyProxyXForwardedFor, headerKeyProxyVia],
      JsText.trim t = t ∧ t.all Utf8.isAscii = true := by
    decide
  obtain ⟨⟨hxtrim, hxascii⟩, hvtrim, hvascii⟩ := by simpa using hkeys
  intro e he
  unfold levelPairs at he
  split at he
  · rcases List.mem_pair.mp he with rfl | rfl
    · exact ⟨hxtrim, ascii_lineOf (List.all_eq_true.mpr hxascii) hop.remoteAddress_ascii⟩
    · exact ⟨hvtrim, ascii_lineOf (List.all_eq_true.mpr hvascii) hop.viaValue_ascii⟩
  · split at he
    · rw [List.mem_singleton.mp he]
      exact ⟨hvtrim, ascii_lineOf (List.all_eq_true.mpr hvascii) hop.viaValue_ascii⟩
    · cases he

/-- **What a broker sends on can be read.** -/
theorem Hop.headers_sendable (hop : Hop) (m : OnePiece) :
    ∀ e ∈ hop.headers m.headers, Sendable e := by
  intro e he
  have hline : ':' ∉ e.1 ∧ indexOf? crlfText (lineOf e) = none := by
    have hmem := he
    rw [← m.sentHeaders_pairs hop] at hmem
    obtain ⟨s, hs, rfl⟩ := List.mem_map.mp hmem
    have hone := (m.at hop).sentHeaders_oneLine hop.host hop.options s hs
    exact ⟨hone.name, hone.line⟩
  have hplain : JsText.trim e.1 = e.1 ∧ (lineOf e).all Utf8.isAscii = true := by
    rcases List.mem_append.mp he with he | he
    · obtain ⟨o, ho, rfl⟩ := List.mem_map.mp (List.mem_of_mem_filter he)
      obtain ⟨x, hx, rfl⟩ := List.mem_map.mp ho
      obtain ⟨hname, hvalue⟩ := ascii_headerOf (m.ascii x hx)
      exact ⟨JsText.trim_trim _, ascii_lineOf hname (ascii_cutValue hvalue)⟩
    · exact hop.levelPairs_plain e he
  exact ⟨hline.1, hplain.1, hplain.2, hline.2⟩

/-- **One broker**: the request line and the body as they came, and
between them the headers it leaves and those it sets. -/
theorem Hop.forward_chunk (hop : Hop) (m : OnePiece) :
    hop.forward m.chunk =
      .ok (some (messageOf m.head.query (hop.headers m.headers) m.head.body)) := by
  obtain ⟨h, hserved, hs⟩ := serves hop.lowersAscii hop.options (m.at hop)
  obtain ⟨handle, hread, -⟩ := read_head hop.host (m.at hop)
  have hread' : feed hop.host {} [m.chunk] = .ok handle := hread
  rw [served, hread] at hserved
  have hh : onProxyRequest hop.host hop.options handle hop.request = h := by
    injection hserved
  have hentries : strEntries ((m.at hop).sentHeaders hop.host hop.options) =
      crlfText.intercalate ((hop.headers m.headers).map lineOf) := by
    rw [← m.sentHeaders_pairs hop, List.map_map]
    rfl
  have hascii : (crlfText.intercalate ((hop.headers m.headers).map lineOf)).all Utf8.isAscii =
      true := by
    refine ascii_intercalate ?_
    intro l hl
    obtain ⟨e, he, rfl⟩ := List.mem_map.mp hl
    exact (hop.headers_sendable m e he).ascii
  have hbuild := hs.build_plain rfl hop.host
  rw [buildHeaders_of_ascii hop.host (hentries ▸ hascii), hentries] at hbuild
  rw [Hop.forward, hread']
  change Except.ok (build hop.host (onProxyRequest hop.host hop.options handle hop.request)) = _
  rw [hh, hbuild]
  simp [Incoming.sent, messageOf, Incoming.later, OnePiece.at, kept]

/-! ## What the next broker reads -/

theorem OnePiece.query_line (m : OnePiece) : indexOf? crlf m.head.query = none := by
  obtain ⟨i, j, hi, -, -, heq⟩ := head?_eq_some_iff.mp m.complete
  have hquery : m.head.query = m.chunk.take i := by rw [heq]
  obtain ⟨-, hmin⟩ := (indexOf?_eq_some_iff (by decide)).mp hi
  have hlen := indexOf?_length_le (by decide) hi
  rw [hquery, indexOf?_eq_none_iff (by decide)]
  intro k hk
  obtain ⟨r, hr⟩ := hk
  have hklt : k < i := by
    have hcount := congrArg List.length hr
    simp only [crlf, List.length_append, List.length_drop, List.length_take, List.length_cons,
      List.length_nil] at hcount
    omega
  refine hmin k hklt ⟨r ++ m.chunk.drop i, ?_⟩
  conv_rhs => rw [← List.take_append_drop i m.chunk]
  rw [List.drop_append_of_le_length (by simp only [List.length_take]; omega), ← hr,
    List.append_assoc]

theorem OnePiece.query_notTls (m : OnePiece) : looksTls m.head.query = false := by
  have hchunk := Head.join_of_head? m.complete
  have hnot := m.notTls
  rw [← hchunk, Head.join] at hnot
  cases hq : m.head.query with
  | nil => rfl
  | cons b query =>
      rw [hq] at hnot
      exact hnot

/-- The request behind a broker that leaves a header. -/
def OnePiece.behind (m : OnePiece) (hop : Hop) (hne : hop.headers m.headers ≠ []) : OnePiece where
  chunk := messageOf m.head.query (hop.headers m.headers) m.head.body
  head := ⟨m.head.query, Utf8.encode (crlfText.intercalate ((hop.headers m.headers).map lineOf)),
    m.head.body⟩
  complete := head?_messageOf m.query_line hne (hop.headers_sendable m)
  colons := colons_messageOf hne (hop.headers_sendable m)
  notTls := looksTls_messageOf m.query_notTls
  ascii := by
    intro x hx
    rw [lines_messageOf hne (hop.headers_sendable m)] at hx
    obtain ⟨e, he, rfl⟩ := List.mem_map.mp hx
    exact (hop.headers_sendable m e he).ascii

theorem OnePiece.behind_headers (m : OnePiece) (hop : Hop) (hne : hop.headers m.headers ≠ []) :
    (m.behind hop hne).headers = (hop.headers m.headers).map (fun e => (e.1, ' ' :: e.2)) := by
  rw [OnePiece.headers]
  change (Head.lines ⟨_, _, _⟩).map headerOf = _
  rw [lines_messageOf hne (hop.headers_sendable m), List.map_map]
  refine List.map_congr_left ?_
  intro e he
  exact headerOf_lineOf (hop.headers_sendable m e he)

/-- The space in front of a value makes no difference to the next broker. -/
theorem Hop.headers_behind (hop hop' : Hop) (m : OnePiece) (hne : hop.headers m.headers ≠ []) :
    hop'.headers (m.behind hop hne).headers = hop'.headers (hop.headers m.headers) := by
  rw [m.behind_headers hop hne, Hop.headers, Hop.headers, List.map_map]
  rfl

/-! ## The host header -/

def hostKey : Text := "host".toList

def HasHost (headers : List (Text × Text)) : Prop := ∃ e ∈ headers, sameName e.1 hostKey = true

instance (headers : List (Text × Text)) : Decidable (HasHost headers) :=
  List.decidableBEx _ _

theorem Hop.removes_host (hop : Hop) {name : Text} (h : sameName name hostKey = true) :
    hop.removes name = false := by
  have hkeys : ∀ t ∈ controlKeys ++ [headerKeyProxyXForwardedFor, headerKeyProxyVia],
      toLowerCase t ≠ toLowerCase hostKey := by
    decide
  rw [Hop.removes, List.any_eq_false]
  intro key hkey hsame
  rw [sameName, beq_iff_eq] at h hsame
  exact hkeys key (mem_of_mem_removedKeys hkey) (hsame.symm.trans h)

theorem HasHost.behind {headers : List (Text × Text)} (h : HasHost headers) (hop : Hop) :
    HasHost (hop.headers headers) := by
  obtain ⟨e, he, hname⟩ := h
  refine ⟨cutHeader e, List.mem_append_left _ (List.mem_filter.mpr ⟨List.mem_map_of_mem he, ?_⟩),
    hname⟩
  rw [show (cutHeader e).1 = e.1 from rfl, hop.removes_host hname]
  rfl

theorem HasHost.behind_headers {m : OnePiece} (h : HasHost m.headers) (hop : Hop)
    (hne : hop.headers m.headers ≠ []) : HasHost (m.behind hop hne).headers := by
  obtain ⟨e, he, hname⟩ := h.behind hop
  rw [m.behind_headers hop hne]
  exact ⟨_, List.mem_map_of_mem he, hname⟩

theorem HasHost.ne_nil {headers : List (Text × Text)} (h : HasHost headers) : headers ≠ [] := by
  rintro rfl
  obtain ⟨e, he, -⟩ := h
  cases he

/-! ## All brokers -/

/-- The headers behind brokers one behind the other. -/
def headersBehind (hops : List Hop) (headers : List (Text × Text)) : List (Text × Text) :=
  hops.foldl (fun headers hop => hop.headers headers) headers

theorem HasHost.along {headers : List (Text × Text)} (h : HasHost headers) (hops : List Hop) :
    HasHost (headersBehind hops headers) := by
  induction hops generalizing headers with
  | nil => exact h
  | cons hop hops ih => exact ih (h.behind hop)

/-- **A request behind its brokers.** Nothing throws, the request line and
the body are as they came, and of the headers there is what every broker
has made of them. -/
theorem relay_headers (hop : Hop) (hops : List Hop) (m : OnePiece) (hhost : HasHost m.headers) :
    relay (hop :: hops) m.chunk =
      .ok (some (messageOf m.head.query (headersBehind (hop :: hops) m.headers) m.head.body)) := by
  induction hops generalizing hop m with
  | nil =>
      rw [relay, hop.forward_chunk m]
      rfl
  | cons hop' hops ih =>
      have hne := (hhost.behind hop).ne_nil
      have hnext := ih hop' (m.behind hop hne) (hhost.behind_headers hop hne)
      rw [relay, hop.forward_chunk m]
      refine hnext.trans ?_
      simp only [headersBehind, List.foldl_cons, hop.headers_behind hop' m hne]
      rfl

theorem headersBehind_sendable (hop : Hop) (hops : List Hop) (m : OnePiece)
    (hhost : HasHost m.headers) :
    ∀ e ∈ headersBehind (hop :: hops) m.headers, Sendable e := by
  induction hops generalizing hop m with
  | nil => exact hop.headers_sendable m
  | cons hop' hops ih =>
      have hne := (hhost.behind hop).ne_nil
      have hnext := ih hop' (m.behind hop hne) (hhost.behind_headers hop hne)
      simp only [headersBehind, List.foldl_cons, hop.headers_behind hop' m hne] at hnext
      exact hnext

/-! ## Where a header comes from -/

/-- The headers of a request on its way: those it came with, and the two
that brokers set. -/
structure Trail where
  own : List (Text × Text)
  forwardedFor : Option Text := none
  via : Option Text := none
  deriving DecidableEq, Repr

namespace Trail

def headers (t : Trail) : List (Text × Text) :=
  t.own ++ ((t.forwardedFor.map (headerKeyProxyXForwardedFor, ·)).toList ++
    (t.via.map (headerKeyProxyVia, ·)).toList)

/-- The trail behind a broker: each of the two headers is the broker's own
if its level asks for it, else the one that came, cut. -/
def behind (t : Trail) (hop : Hop) : Trail where
  own := (t.own.map cutHeader).filter (fun e => !hop.removes e.1)
  forwardedFor :=
    if hop.options.level = 3 then some hop.request.remoteAddress
    else t.forwardedFor.map cutValue
  via :=
    if hop.options.level = 3 ∨ hop.options.level = 2 then some (viaValue hop.request)
    else t.via.map cutValue

def along (hops : List Hop) (t : Trail) : Trail := hops.foldl behind t

end Trail

/-- Which of the two a broker takes away. -/
theorem Hop.removes_level (hop : Hop) :
    hop.removes headerKeyProxyXForwardedFor = decide (hop.options.level = 3) ∧
      hop.removes headerKeyProxyVia =
        decide (hop.options.level = 3 ∨ hop.options.level = 2) := by
  have hx : controlKeys.any (sameName headerKeyProxyXForwardedFor) = false := by decide
  have hv : controlKeys.any (sameName headerKeyProxyVia) = false := by decide
  have hvx : sameName headerKeyProxyVia headerKeyProxyXForwardedFor = false := by decide
  have hxv : sameName headerKeyProxyXForwardedFor headerKeyProxyVia = false := by decide
  have hxx : sameName headerKeyProxyXForwardedFor headerKeyProxyXForwardedFor = true := by decide
  have hvv : sameName headerKeyProxyVia headerKeyProxyVia = true := by decide
  simp only [Hop.removes, removedKeys, List.any_append, hx, hv, Bool.false_or, levelKeys]
  by_cases hthree : hop.options.level = 3
  · simp [hthree, hxx, hvv]
  · by_cases htwo : hop.options.level = 2
    · simp [htwo, hvv, hxv]
    · simp [hthree, htwo]

/-- **One broker and the trail.** -/
theorem Hop.headers_trail (hop : Hop) (t : Trail) :
    hop.headers t.headers = (t.behind hop).headers := by
  obtain ⟨hx, hv⟩ := hop.removes_level
  have hone : ∀ (name : Text) (value : Option Text),
      (((value.map (name, ·)).toList).map cutHeader).filter (fun e => !hop.removes e.1) =
        if hop.removes name then [] else ((value.map cutValue).map (name, ·)).toList := by
    intro name value
    cases value with
    | none => simp
    | some v => cases hr : hop.removes name <;> simp [cutHeader, hr]
  rw [Hop.headers, Trail.headers, List.map_append, List.map_append, List.filter_append,
    List.filter_append, hone, hone, hx, hv, Trail.headers, Trail.behind, Hop.levelPairs]
  by_cases hthree : hop.options.level = 3
  · simp [hthree]
  · by_cases htwo : hop.options.level = 2
    · simp [htwo]
    · simp [hthree, htwo]

theorem headersBehind_trail (hops : List Hop) (t : Trail) :
    headersBehind hops t.headers = (t.along hops).headers := by
  induction hops generalizing t with
  | nil => rfl
  | cons hop hops ih =>
      rw [headersBehind, List.foldl_cons, hop.headers_trail]
      exact ih (t.behind hop)

theorem headersBehind_own (hops : List Hop) (headers : List (Text × Text)) :
    headersBehind hops headers = (({ own := headers : Trail }.along hops)).headers := by
  rw [← headersBehind_trail]
  simp [Trail.headers]

/-- **What arrives behind a chain of brokers**, on the bytes: the request
line, the headers of the trail and the body. -/
theorem relay_eq (hop : Hop) (hops : List Hop) (m : OnePiece) (hhost : HasHost m.headers) :
    relay (hop :: hops) m.chunk =
      .ok (some (messageOf m.head.query
        (({ own := m.headers : Trail }.along (hop :: hops)).headers) m.head.body)) := by
  rw [relay_headers hop hops m hhost, headersBehind_own]

theorem lowers_ascii (t : Text) (_ : t.all Utf8.isAscii = true) :
    Host.ascii.toLocaleLowerCase t = toLowerCase t := rfl

/-- A broker of a level, asked by 10.0.0.7. -/
def exampleHop (level : Nat) : Hop where
  host := Host.ascii
  options := { level := level }
  request := exampleRequest
  lowers := lowers_ascii
  remoteAddress_ascii := rfl
  viaValue_ascii := rfl
  remoteAddress_line := fun h => absurd (List.elem_eq_true_of_mem h) Bool.false_ne_true
  viaValue_line := fun h => absurd (List.elem_eq_true_of_mem h) Bool.false_ne_true
  remoteAddress_trim := rfl
  viaValue_trim := rfl

def hostRequest : OnePiece where
  chunk := Utf8.encode "GET / HTTP/1.1\r\nHost: h:80\r\nVia: x\r\n\r\nhi".toList
  head := ⟨Utf8.encode "GET / HTTP/1.1".toList, Utf8.encode "Host: h:80\r\nVia: x".toList,
    Utf8.encode "hi".toList⟩
  complete := by decide
  colons := by decide
  notTls := by decide
  ascii := by
    have hlines : Head.lines ⟨Utf8.encode "GET / HTTP/1.1".toList,
        Utf8.encode "Host: h:80\r\nVia: x".toList, Utf8.encode "hi".toList⟩ =
        ["Host: h:80".toList, "Via: x".toList] := by decide +kernel
    rw [hlines]
    simp only [List.forall_mem_cons]
    decide

/-- The port of the host header is lost, and 'Via' is the second
broker's. -/
theorem relay_eq_two :
    relay [exampleHop 1, exampleHop 2] hostRequest.chunk =
      .ok (some (messageOf (Utf8.encode "GET / HTTP/1.1".toList)
        [("Host".toList, "h".toList), ("Via".toList, "ProxyBroker on 10.0.0.1:3128".toList)]
        (Utf8.encode "hi".toList))) :=
  relay_eq (exampleHop 1) [exampleHop 2] hostRequest (by decide +kernel)

end ProxyBroker.Server
